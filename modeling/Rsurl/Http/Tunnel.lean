/-
# `Rsurl.Http.Tunnel` — where `connect_tunnel` stops reading

The answer to a CONNECT is read byte by byte, since what is behind its head
belongs to the layer above.  The loop is a scan for the first empty line
(`readConnect_scan`), so the head is all that is taken, and the status on its
first line decides.
-/
import Rsurl.Base.Scan
import Rsurl.Http.Connect
import Rsurl.Http.Head

namespace Rsurl.Http

open Base (Scan scan EndsFirst correct_scan)

/-! ## Empty lines -/

theorem lossyFrom_some_ne_nil (s : Begun) (bs : Bytes) : lossyFrom (some s) bs ≠ [] := by
  induction bs generalizing s with
  | nil => exact List.cons_ne_nil _ _
  | cons b bs ih =>
      rw [lossyFrom]
      split
      · dsimp only
        split
        · exact List.cons_ne_nil _ _
        · exact ih _
      · exact List.cons_ne_nil _ _

/-- Every byte shows, if only as a replacement. -/
theorem fromUtf8Lossy_eq_nil {bs : Bytes} : fromUtf8Lossy bs = [] ↔ bs = [] := by
  constructor
  · intro h
    cases bs with
    | nil => rfl
    | cons b bs =>
        rw [fromUtf8Lossy, lossyFrom] at h
        split at h
        · cases h
        · exact absurd h (lossyFrom_some_ne_nil _ _)
  · rintro rfl
    rfl

/-- The bytes behind the last LF. -/
def openLine (seen : Bytes) : Bytes := seen.rtakeWhile (· ≠ 10)

/-- What has been read ends in a line with nothing in it, its CR or none. -/
def endsInEmptyLine (seen : Bytes) : Bool :=
  seen.getLast? == some 10 && (openLine seen.dropLast == [] || openLine seen.dropLast == [13])

/-- The first line, once it is there. -/
def statusLine (seen : Bytes) : Option Text := (throughLf seen).map fun (line, _) => connectLine line

theorem openLine_concat {seen : Bytes} {b : UInt8} :
    openLine (seen ++ [b]) = if b = 10 then [] else openLine seen ++ [b] := by
  rw [openLine, openLine, List.rtakeWhile_concat]
  by_cases hb : b = 10
  · simp [hb]
  · simp [hb]

theorem throughLf_concat (seen : Bytes) (b : UInt8) :
    throughLf (seen ++ [b]) =
      match throughLf seen with
      | some (line, rest) => some (line, rest ++ [b])
      | none => if b = 10 then some (seen ++ [b], []) else none := by
  induction seen with
  | nil =>
      rw [List.nil_append, throughLf, throughLf]
      rfl
  | cons a seen ih =>
      rw [List.cons_append, throughLf, throughLf]
      by_cases ha : a = 10
      · rw [if_pos ha, if_pos ha]
      · rw [if_neg ha, if_neg ha, ih]
        cases throughLf seen with
        | none =>
            by_cases hb : b = 10
            · simp [hb]
            · simp [hb]
        | some p => rfl

theorem connectLine_eq_nil {line : Bytes} (h : 10 ∉ line) :
    connectLine (line ++ [10]) = [] ↔ line = [] ∨ line = [13] := by
  have hlast : (line ++ [10]).getLast? = some 10 := List.getLast?_concat
  have hopen : (if (line ++ [10]).getLast? = some 10 then (line ++ [10]).dropLast
      else line ++ [10]) = line := by
    rw [if_pos hlast, List.dropLast_concat]
  rw [connectLine, fromUtf8Lossy_eq_nil, hopen]
  constructor
  · intro hnil
    split at hnil
    · next hcr =>
        obtain ⟨front, rfl⟩ := List.getLast?_eq_some_iff.mp hcr
        rw [List.dropLast_concat] at hnil
        exact .inr (by rw [hnil]; rfl)
    · exact .inl hnil
  · rintro (rfl | rfl)
    · rfl
    · rfl

theorem not_mem_openLine (seen : Bytes) : 10 ∉ openLine seen := by
  intro h
  have hne := List.mem_rtakeWhile_imp h
  simp at hne

theorem statusLine_concat {seen : Bytes} {b : UInt8} (h : b ≠ 10) :
    statusLine (seen ++ [b]) = statusLine seen := by
  rw [statusLine, statusLine, throughLf_concat]
  cases throughLf seen with
  | none => rw [if_neg h]
  | some p => rfl

theorem openLine_of_none {seen : Bytes} (h : throughLf seen = none) : openLine seen = seen := by
  rw [openLine, List.rtakeWhile_eq_self_iff]
  intro b hb
  have hne : b ≠ 10 := fun heq => throughLf_eq_none.mp h (heq ▸ hb)
  simpa using hne

/-- The line that ends is the first one if there is none before. -/
theorem statusLine_lf (seen : Bytes) : statusLine (seen ++ [10]) =
    some ((statusLine seen).getD (connectLine (openLine seen ++ [10]))) := by
  rw [statusLine, statusLine, throughLf_concat]
  cases hline : throughLf seen with
  | none =>
      rw [if_pos rfl, openLine_of_none hline]
      rfl
  | some p => rfl

theorem endsInEmptyLine_lf (seen : Bytes) : endsInEmptyLine (seen ++ [10]) = true ↔
    connectLine (openLine seen ++ [10]) = [] := by
  rw [connectLine_eq_nil (not_mem_openLine seen), endsInEmptyLine, List.getLast?_concat,
    List.dropLast_concat]
  simp

theorem endsInEmptyLine_other {seen : Bytes} {b : UInt8} (h : b ≠ 10) :
    endsInEmptyLine (seen ++ [b]) = false := by
  rw [endsInEmptyLine, List.getLast?_concat]
  simp [h]

/-! ## The loop -/

theorem readConnect_tooLong (fuel : Nat) (s : Source) {total : Nat} (h : maxHeaderBytes < total)
    (line : Bytes) (status : Option Text) :
    ∃ e, readConnect fuel s total line status = (.error e, s) := by
  cases fuel with
  | zero => exact ⟨_, rfl⟩
  | succ fuel => exact ⟨_, if_pos h⟩

/-- What the loop returns is what a scan has found. -/
def FollowsScan (tail : Option IoKind) (out : Result Text × Source) : Scan UInt8 → Prop
  | .found seen rest => ∃ first, statusLine seen = some first ∧ out = (.ok first, ⟨rest, tail⟩)
  | .tooLong _ rest => ∃ e, out = (.error e, ⟨rest, tail⟩)
  | .ended _ => ∃ e, out = (.error e, ⟨[], tail⟩)

/-- The loop of `connect_tunnel` is a scan for the empty line. -/
theorem readConnect_scan {fuel : Nat} {seen bytes : Bytes} (tail : Option IoKind)
    (hfuel : bytes.length < fuel) (hlimit : seen.length ≤ maxHeaderBytes) :
    FollowsScan tail (readConnect fuel ⟨bytes, tail⟩ seen.length (openLine seen) (statusLine seen))
      (scan endsInEmptyLine maxHeaderBytes seen bytes) := by
  induction bytes generalizing fuel seen with
  | nil =>
      obtain ⟨fuel, rfl⟩ := Nat.exists_eq_add_of_lt hfuel
      rw [scan, readConnect, if_neg (Nat.not_lt.mpr hlimit)]
      cases tail with
      | none => exact ⟨_, rfl⟩
      | some kind => exact ⟨_, rfl⟩
  | cons b bytes ih =>
      obtain ⟨fuel, rfl⟩ : ∃ k, fuel = k + 1 := Nat.exists_eq_add_of_le' (Nat.lt_of_le_of_lt (Nat.zero_le _) hfuel)
      have hfuel' : bytes.length < fuel := Nat.lt_of_succ_lt_succ hfuel
      have hlength : (seen ++ [b]).length = seen.length + 1 := List.length_append
      -- the turn behind this byte, unless it was the last
      have hmore : FollowsScan tail (readConnect fuel ⟨bytes, tail⟩ (seen.length + 1)
          (openLine (seen ++ [b])) (statusLine (seen ++ [b])))
          (if maxHeaderBytes < (seen ++ [b]).length then .tooLong (seen ++ [b]) bytes
            else scan endsInEmptyLine maxHeaderBytes (seen ++ [b]) bytes) := by
        rw [hlength]
        by_cases hlong : maxHeaderBytes < seen.length + 1
        · rw [if_pos hlong]
          exact readConnect_tooLong fuel _ hlong _ _
        · rw [if_neg hlong, ← hlength]
          exact ih hfuel' (by rw [hlength]; exact Nat.not_lt.mp hlong)
      rw [scan, readConnect, if_neg (Nat.not_lt.mpr hlimit)]
      dsimp only
      by_cases hb : b = 10
      · subst hb
        rw [if_pos rfl]
        rw [openLine_concat, if_pos rfl, statusLine_lf] at hmore
        by_cases hempty : connectLine (openLine seen ++ [10]) = []
        · rw [if_pos ((endsInEmptyLine_lf seen).mpr hempty), if_pos hempty]
          exact ⟨_, statusLine_lf seen, rfl⟩
        · rw [if_neg fun h => hempty ((endsInEmptyLine_lf seen).mp h), if_neg hempty]
          exact hmore
      · rw [openLine_concat, if_neg hb, statusLine_concat hb] at hmore
        rw [if_neg hb, endsInEmptyLine_other hb, if_neg Bool.false_ne_true]
        exact hmore

/-! ## Handing over -/

/-- A reader up to a mark has taken `seen` from a stream and nothing behind it: one byte beyond the
limit at most, and no mark in front of the last byte; where it succeeds, `seen` ends with the mark,
and it does not succeed where the limit comes first. -/
structure HandsOver (stop : Bytes → Bool) (s s' : Source) (seen : Bytes) (ok : Prop) : Prop where
  taken : s.bytes = seen ++ s'.bytes
  tail : s'.tail = s.tail
  limit : seen.length ≤ maxHeaderBytes + 1
  first : ∀ front, front <+: seen → front ≠ seen → stop front = false
  ends : ok → stop seen = true
  fails : (∀ front, front <+: s.bytes → front.length ≤ maxHeaderBytes + 1 → stop front = false) →
    ¬ ok

theorem HandsOver.nothing {stop : Bytes → Bool} (s : Source) {ok : Prop} (h : ¬ ok) :
    HandsOver stop s s [] ok where
  taken := rfl
  tail := rfl
  limit := Nat.zero_le _
  first _ hpre hne := absurd (List.prefix_nil.mp hpre) hne
  ends hok := absurd hok h
  fails _ := h

/-- A scan that is at its mark may still lead to an error; one that is not does. -/
theorem handsOver_of_scan {stop : Bytes → Bool} (hnil : stop [] = false) {bytes : Bytes}
    {tail : Option IoKind} {s' : Source} {ok : Prop}
    (h : match scan stop maxHeaderBytes [] bytes with
      | .found _ rest => s' = ⟨rest, tail⟩
      | .tooLong _ rest => s' = ⟨rest, tail⟩ ∧ ¬ ok
      | .ended _ => s' = ⟨[], tail⟩ ∧ ¬ ok) :
    HandsOver stop ⟨bytes, tail⟩ s' (scan stop maxHeaderBytes [] bytes).seen ok := by
  have hempty : ∀ front, front <+: ([] : Bytes) → stop front = false := by
    intro front hpre
    rwa [List.prefix_nil.mp hpre]
  have hcorrect := @correct_scan _ stop maxHeaderBytes [] bytes hempty (Nat.zero_le _)
  rw [List.nil_append] at hcorrect
  cases hscan : scan stop maxHeaderBytes [] bytes with
  | found seen rest =>
      rw [hscan] at h hcorrect
      obtain ⟨rfl, hlimit, hends⟩ := hcorrect
      obtain rfl : s' = ⟨rest, tail⟩ := h
      refine ⟨rfl, rfl, hlimit, hends.first, fun _ => hends.ends, fun hnone => ?_⟩
      have hno := hnone seen (List.prefix_append _ _) hlimit
      rw [hends.ends] at hno
      cases hno
  | tooLong seen rest =>
      rw [hscan] at h hcorrect
      obtain ⟨rfl, hlimit, hnone⟩ := hcorrect
      obtain ⟨rfl, hok⟩ := h
      exact ⟨rfl, rfl, hlimit.le, fun front hpre _ => hnone front hpre,
        fun h => absurd h hok, fun _ => hok⟩
  | ended seen =>
      rw [hscan] at h hcorrect
      obtain ⟨rfl, hlimit, hnone⟩ := hcorrect
      obtain ⟨rfl, hok⟩ := h
      exact ⟨(List.append_nil _).symm, rfl, Nat.le_succ_of_le hlimit,
        fun front hpre _ => hnone front hpre, fun h => absurd h hok, fun _ => hok⟩

/-- The second word of a status line is a number from 200 to 299. -/
def IsSuccess (line : Text) : Prop :=
  ∃ version code rest n, ' ' ∉ version ∧ ' ' ∉ code ∧ parseU16 code = some n ∧ 200 ≤ n ∧ n < 300 ∧
    (line = version ++ ' ' :: code ∨ line = version ++ ' ' :: (code ++ ' ' :: rest))

theorem isSuccess_of_connectStatus {target : Url} {line : Text}
    (h : connectStatus target line = .ok ()) : IsSuccess line := by
  unfold connectStatus at h
  split at h
  · cases h
  next version rest hversion =>
  obtain ⟨rfl, hspace⟩ := Text.splitOnce_eq_some.mp hversion
  dsimp only at h
  cases hcode : Text.splitOnce ' ' rest with
  | none =>
      rw [hcode] at h
      dsimp only [Option.getD_none] at h
      cases hparse : parseU16 rest with
      | none =>
          rw [hparse] at h
          cases h
      | some n =>
          rw [hparse] at h
          dsimp only at h
          split at h
          · next hn => exact ⟨version, rest, [], n, hspace, Text.splitOnce_eq_none.mp hcode, hparse,
              hn.1, hn.2, .inl rfl⟩
          · cases h
  | some p =>
      obtain ⟨code, reason⟩ := p
      obtain ⟨rfl, hspace'⟩ := Text.splitOnce_eq_some.mp hcode
      rw [hcode] at h
      dsimp only [Option.getD_some] at h
      cases hparse : parseU16 code with
      | none =>
          rw [hparse] at h
          cases h
      | some n =>
          rw [hparse] at h
          dsimp only at h
          split at h
          · next hn => exact ⟨version, code, reason, n, hspace, hspace', hparse, hn.1, hn.2, .inr rfl⟩
          · cases h

/-- Where a tunnel stands, the head of the answer has been taken, through its first empty line, and
no more; and its first line says so. -/
theorem connectStream_handsOver (source : Source) (sink : Sink) (target : Url)
    (proxy : ProxyConfig) :
    ∃ seen, HandsOver endsInEmptyLine source (connectStream source sink target proxy).2.1 seen
        ((connectStream source sink target proxy).1 = .ok ()) ∧
      ((connectStream source sink target proxy).1 = .ok () →
        ∃ line, statusLine seen = some line ∧ IsSuccess line) := by
  obtain ⟨bytes, tail⟩ := source
  unfold connectStream
  rcases Sink.andThen (sink.writeAll (connectHead target proxy).utf8) Sink.flush with ⟨e | _, sink⟩
  · exact ⟨[], .nothing _ nofun, nofun⟩
  dsimp only
  have hloop : FollowsScan tail (readConnect (bytes.length + 1) ⟨bytes, tail⟩ 0 [] none)
      (scan endsInEmptyLine maxHeaderBytes [] bytes) :=
    readConnect_scan tail (Nat.lt_succ_self _) (Nat.zero_le _)
  refine ⟨(scan endsInEmptyLine maxHeaderBytes [] bytes).seen, handsOver_of_scan rfl ?_, ?_⟩
  · cases hscan : scan endsInEmptyLine maxHeaderBytes [] bytes with
    | found seen rest =>
        rw [hscan] at hloop
        obtain ⟨first, -, hout⟩ := hloop
        rw [hout]
    | tooLong seen rest =>
        rw [hscan] at hloop
        obtain ⟨e, hout⟩ := hloop
        rw [hout]
        exact ⟨rfl, nofun⟩
    | ended seen =>
        rw [hscan] at hloop
        obtain ⟨e, hout⟩ := hloop
        rw [hout]
        exact ⟨rfl, nofun⟩
  · cases hscan : scan endsInEmptyLine maxHeaderBytes [] bytes with
    | found seen rest =>
        rw [hscan] at hloop
        obtain ⟨first, hline, hout⟩ := hloop
        rw [hout]
        exact fun hok => ⟨first, hline, isSuccess_of_connectStatus hok⟩
    | tooLong seen rest =>
        rw [hscan] at hloop
        obtain ⟨e, hout⟩ := hloop
        rw [hout]
        nofun
    | ended seen =>
        rw [hscan] at hloop
        obtain ⟨e, hout⟩ := hloop
        rw [hout]
        nofun

/-- One byte behind the head. -/
example : (connectStream ⟨Text.utf8 "HTTP/1.1 200 OK\r\n\r\nx".toList, none⟩ ⟨[], none, none⟩
    ⟨"https".toList, none, "h".toList, 443, "/".toList⟩ ⟨"p".toList, 8080, none⟩).2.1 =
      ⟨Text.utf8 "x".toList, none⟩ := by decide +kernel

end Rsurl.Http
