/-
# `Rsurl.Base.PoolLedger` — a pool and its deposits

What a pool is for, without buckets: every value that is accepted gets the next
ticket, and a checkout takes the newest deposit under its key.  The ledger's
fields say that no ticket is lost or used twice; a pool that enforces its caps
stack by stack keeps such a ledger, call by call.
-/
import Mathlib.Data.List.Range
import Rsurl.Base.Pool

namespace Rsurl.Base

/-- An accepted value. -/
structure Deposit (κ ν : Type) where
  ticket : Nat
  key : κ
  value : ν

variable {κ ν : Type} [DecidableEq κ]

/-- The deposits that wait, newest first, and the tickets of those handed out.  Together they are
the tickets that were issued, each once. -/
structure Ledger (κ ν : Type) where
  waiting : List (Deposit κ ν)
  handed : List Nat
  issued : Nat
  newestFirst : waiting.Pairwise fun a b => b.ticket < a.ticket
  accounted : (handed ++ waiting.map (·.ticket)).Perm (List.range issued)

namespace Ledger

def new : Ledger κ ν where
  waiting := []
  handed := []
  issued := 0
  newestFirst := .nil
  accounted := .nil

/-- The values that wait under a key, newest first. -/
def under (l : Ledger κ ν) (key : κ) : List ν :=
  (l.waiting.filter fun d => d.key = key).map (·.value)

omit [DecidableEq κ] in
/-- No ticket is handed out twice, or while its deposit waits. -/
theorem nodup (l : Ledger κ ν) : (l.handed ++ l.waiting.map (·.ticket)).Nodup :=
  l.accounted.nodup_iff.mpr List.nodup_range

omit [DecidableEq κ] in
theorem ticket_lt {l : Ledger κ ν} {d : Deposit κ ν} (h : d ∈ l.waiting) : d.ticket < l.issued := by
  have hmem : d.ticket ∈ l.handed ++ l.waiting.map (·.ticket) :=
    List.mem_append_right _ (List.mem_map_of_mem h)
  exact List.mem_range.mp (l.accounted.mem_iff.mp hmem)

/-- One more deposit. -/
def deposit (l : Ledger κ ν) (key : κ) (v : ν) : Ledger κ ν where
  waiting := ⟨l.issued, key, v⟩ :: l.waiting
  handed := l.handed
  issued := l.issued + 1
  newestFirst := .cons (fun _ hd => ticket_lt hd) l.newestFirst
  accounted := by
    rw [List.map_cons, List.range_succ]
    exact List.perm_middle.trans ((l.accounted.cons _).trans (List.perm_append_singleton _ _).symm)

/-- A value is accepted while there is room for it. -/
def release (perKey global : Nat) (l : Ledger κ ν) (key : κ) (v : ν) : Ledger κ ν :=
  if global ≤ l.waiting.length ∨ perKey ≤ (l.under key).length then l else l.deposit key v

/-- The first deposit under a key, between those before and behind it. -/
theorem split_at_first {waiting : List (Deposit κ ν)} {key : κ} {d : Deposit κ ν}
    (h : waiting.find? (fun d => d.key = key) = some d) :
    d.key = key ∧ ∃ before behind, waiting = before ++ d :: behind ∧
      waiting.eraseP (fun d => d.key = key) = before ++ behind ∧
      ∀ a ∈ before, a.key ≠ key := by
  obtain ⟨hd, before, behind, rfl, hbefore⟩ := List.find?_eq_some_iff_append.mp h
  have hkey : d.key = key := of_decide_eq_true hd
  have hno : ∀ a ∈ before, a.key ≠ key := fun a ha => by simpa using hbefore a ha
  refine ⟨hkey, before, behind, rfl, ?_, hno⟩
  rw [List.eraseP_append_right _ fun a ha => by simpa using hno a ha]
  rw [List.eraseP_cons_of_pos (by simpa using hkey)]

/-- The newest deposit under the key goes. -/
def checkout (l : Ledger κ ν) (key : κ) : Option ν × Ledger κ ν :=
  match h : l.waiting.find? fun d => d.key = key with
  | none => (none, l)
  | some d => (some d.value, {
      waiting := l.waiting.eraseP fun d => d.key = key
      handed := l.handed ++ [d.ticket]
      issued := l.issued
      newestFirst := l.newestFirst.sublist List.eraseP_sublist
      accounted := by
        obtain ⟨-, before, behind, hwaiting, herase, -⟩ := split_at_first h
        refine List.Perm.trans ?_ l.accounted
        rw [herase, hwaiting, List.append_assoc]
        refine List.Perm.append_left _ ?_
        rw [List.map_append, List.map_append, List.map_cons, List.singleton_append]
        exact List.perm_middle.symm })

/-- A checkout that hands out the deposit `d`. -/
structure Hands (l l' : Ledger κ ν) (key : κ) (d : Deposit κ ν) : Prop where
  key_eq : d.key = key
  waits : d ∈ l.waiting
  newest : ∀ a ∈ l.waiting, a.key = key → a.ticket ≤ d.ticket
  handed : l'.handed = l.handed ++ [d.ticket]
  under : l.under key = d.value :: l'.under key
  others : ∀ k, k ≠ key → l'.under k = l.under k
  length : l'.waiting.length + 1 = l.waiting.length

theorem checkout_cases (l : Ledger κ ν) (key : κ) :
    l.under key = [] ∧ l.checkout key = (none, l) ∨
      ∃ d l', l.checkout key = (some d.value, l') ∧ l.Hands l' key d := by
  unfold checkout
  split
  · next hnone =>
      refine .inl ⟨?_, rfl⟩
      have hno := List.find?_eq_none.mp hnone
      rw [under, List.filter_eq_nil_iff.mpr hno, List.map_nil]
  · next d hsome =>
      obtain ⟨hkey, before, behind, hwaiting, herase, hbefore⟩ := split_at_first hsome
      have hfilter : before.filter (fun d => d.key = key) = [] :=
        List.filter_eq_nil_iff.mpr fun a ha => by simpa using hbefore a ha
      have hsorted := l.newestFirst
      rw [hwaiting] at hsorted
      refine .inr ⟨d, _, rfl, hkey, ?_, fun a ha hak => ?_, rfl, ?_, fun k hk => ?_, ?_⟩
      · rw [hwaiting]
        exact List.mem_append_right _ List.mem_cons_self
      · rw [hwaiting] at ha
        rcases List.mem_append.mp ha with ha | ha
        · exact absurd hak (hbefore a ha)
        rcases List.mem_cons.mp ha with rfl | ha
        · exact Nat.le_refl _
        · have htail := (List.pairwise_append.mp hsorted).2.1
          exact Nat.le_of_lt ((List.pairwise_cons.mp htail).1 a ha)
      · simp only [under, herase]
        rw [hwaiting, List.filter_append, List.filter_append, hfilter, List.nil_append,
          List.filter_cons_of_pos (by simpa using hkey), List.map_cons, List.nil_append]
      · simp only [under, herase]
        have hne : ¬ d.key = k := fun h => hk (h.symm.trans hkey)
        rw [hwaiting, List.filter_append, List.filter_append,
          List.filter_cons_of_neg (by simpa using hne)]
      · simp only [herase]
        rw [hwaiting, List.length_append, List.length_append, List.length_cons]
        omega

theorem under_deposit (l : Ledger κ ν) (key : κ) (v : ν) :
    (l.deposit key v).under key = v :: l.under key := by
  rw [under, deposit, List.filter_cons_of_pos (by simp)]
  rfl

theorem under_deposit_of_ne (l : Ledger κ ν) {key k : κ} (v : ν) (h : k ≠ key) :
    (l.deposit key v).under k = l.under k := by
  rw [under, deposit, List.filter_cons_of_neg (by simpa using h.symm)]
  rfl

end Ledger

/-- A call on a pool. -/
inductive Call (κ ν : Type) where
  | release (key : κ) (v : ν)
  | checkout (key : κ)

/-- What one call gives back. -/
def Pool.call (perKey global : Nat) (p : Pool κ ν) : Call κ ν → Option ν × Pool κ ν
  | .release key v => (none, p.release perKey global key v)
  | .checkout key => p.checkout key

/-- What calls one after another give back. -/
def Pool.run (perKey global : Nat) : Pool κ ν → List (Call κ ν) → List (Option ν) × Pool κ ν
  | p, [] => ([], p)
  | p, c :: calls =>
      let (out, p) := p.call perKey global c
      let (outs, p) := Pool.run perKey global p calls
      (out :: outs, p)

def Ledger.call (perKey global : Nat) (l : Ledger κ ν) : Call κ ν → Option ν × Ledger κ ν
  | .release key v => (none, l.release perKey global key v)
  | .checkout key => l.checkout key

def Ledger.run (perKey global : Nat) : Ledger κ ν → List (Call κ ν) → List (Option ν) × Ledger κ ν
  | l, [] => ([], l)
  | l, c :: calls =>
      let (out, l) := l.call perKey global c
      let (outs, l) := Ledger.run perKey global l calls
      (out :: outs, l)

/-! ## The pool keeps the ledger -/

namespace Pool

theorem total_kerase (key : κ) (entries : List (Σ _ : κ, List ν)) :
    ((entries.kerase key).map fun x => x.2.length).sum +
        ((entries.dlookup key).getD []).length =
      (entries.map fun x => x.2.length).sum := by
  induction entries with
  | nil => rfl
  | cons x entries ih =>
      by_cases hkey : key = x.1
      · subst hkey
        rw [List.kerase_cons_eq rfl, List.dlookup_cons_eq, List.map_cons, List.sum_cons]
        exact Nat.add_comm _ _
      · rw [List.kerase_cons_ne hkey, List.dlookup_cons_ne _ _ hkey, List.map_cons, List.sum_cons,
          List.map_cons, List.sum_cons, Nat.add_assoc, ih]

theorem total_erase (p : Pool κ ν) (key : κ) :
    total (p.erase key) + ((p.lookup key).getD []).length = p.total :=
  total_kerase key p.entries

theorem total_insert (p : Pool κ ν) (key : κ) (bucket : List ν) :
    total (p.insert key bucket) + ((p.lookup key).getD []).length = p.total + bucket.length := by
  have herase := total_kerase key p.entries
  have hinsert : total (p.insert key bucket) =
      bucket.length + ((p.entries.kerase key).map fun x => x.2.length).sum := by
    rw [total, AList.entries_insert, List.map_cons, List.sum_cons]
  have htotal : p.total = (p.entries.map fun x => x.2.length).sum := rfl
  have hlookup : p.lookup key = p.entries.dlookup key := rfl
  rw [hinsert, htotal, hlookup]
  omega

/-- A pool with the deposits of a ledger, within its caps and without empty stacks. -/
structure Keeps (perKey global : Nat) (p : Pool κ ν) (l : Ledger κ ν) : Prop where
  bucket : ∀ key, (p.lookup key).getD [] = (l.under key).reverse
  nonempty : ∀ key bucket, p.lookup key = some bucket → bucket ≠ []
  total : p.total = l.waiting.length
  perKey : ∀ key, (l.under key).length ≤ perKey
  global : l.waiting.length ≤ global

variable {perKey global : Nat} {p : Pool κ ν} {l : Ledger κ ν}

theorem keeps_new : Keeps perKey global (∅ : Pool κ ν) .new where
  bucket key := by
    rw [AList.lookup_empty]
    rfl
  nonempty key bucket h := by
    rw [AList.lookup_empty] at h
    cases h
  total := rfl
  perKey _ := Nat.zero_le _
  global := Nat.zero_le _

theorem Keeps.release (h : Keeps perKey global p l) (key : κ) (v : ν) :
    Keeps perKey global (p.release perKey global key v) (l.release perKey global key v) := by
  have hbucket := h.bucket key
  have hlen : ((p.lookup key).getD []).length = (l.under key).length := by
    rw [hbucket, List.length_reverse]
  unfold Pool.release Ledger.release
  rw [h.total]
  by_cases hfull : global ≤ l.waiting.length
  · rw [if_pos hfull, if_pos (.inl hfull)]
    exact h
  rw [if_neg hfull]
  simp only
  rw [hlen]
  by_cases hkey : perKey ≤ (l.under key).length
  · rw [if_pos hkey, if_pos (.inr hkey)]
    exact h
  rw [if_neg hkey, if_neg (not_or.mpr ⟨hfull, hkey⟩)]
  refine ⟨fun k => ?_, fun k bucket hk => ?_, ?_, fun k => ?_, Nat.lt_of_not_le hfull⟩
  · by_cases hk : k = key
    · subst hk
      rw [AList.lookup_insert, Ledger.under_deposit, List.reverse_cons, ← hbucket]
      rfl
    · rw [AList.lookup_insert_ne hk, Ledger.under_deposit_of_ne l v hk]
      exact h.bucket k
  · rcases Table.lookup_insert_cases hk with ⟨rfl, rfl⟩ | ⟨-, hk⟩
    · exact List.append_ne_nil_of_right_ne_nil _ (List.cons_ne_nil _ _)
    · exact h.nonempty k bucket hk
  · have htotal := total_insert p key ((p.lookup key).getD [] ++ [v])
    rw [List.length_append, List.length_singleton, h.total] at htotal
    show _ = l.waiting.length + 1
    omega
  · by_cases hk : k = key
    · subst hk
      rw [Ledger.under_deposit]
      exact Nat.lt_of_not_le hkey
    · rw [Ledger.under_deposit_of_ne l v hk]
      exact h.perKey k

theorem Keeps.checkout (h : Keeps perKey global p l) (key : κ) :
    (p.checkout key).1 = (l.checkout key).1 ∧
      Keeps perKey global (p.checkout key).2 (l.checkout key).2 := by
  have hbucket := h.bucket key
  rcases l.checkout_cases key with ⟨hempty, hledger⟩ | ⟨d, l', hledger, hands⟩
  · have hnone : p.lookup key = none := by
      cases hlookup : p.lookup key with
      | none => rfl
      | some bucket =>
          rw [hlookup, hempty] at hbucket
          exact absurd hbucket (h.nonempty key bucket hlookup)
    have hpool : p.checkout key = (none, p) := by
      unfold Pool.checkout
      rw [hnone]
    rw [hpool, hledger]
    exact ⟨rfl, h⟩
  · rw [hands.under, List.reverse_cons] at hbucket
    obtain ⟨bucket, hlookup, rfl⟩ : ∃ bucket, p.lookup key = some bucket ∧
        bucket = (l'.under key).reverse ++ [d.value] := by
      cases hlookup : p.lookup key with
      | none =>
          rw [hlookup] at hbucket
          simp at hbucket
      | some bucket =>
          rw [hlookup] at hbucket
          exact ⟨bucket, rfl, hbucket⟩
    have hpool : p.checkout key = (some d.value,
        if (l'.under key).reverse = [] then p.erase key
        else p.insert key (l'.under key).reverse) := by
      unfold Pool.checkout
      rw [hlookup]
      simp only [List.getLast?_append, List.getLast?_singleton, List.dropLast_concat]
      rfl
    have hle : ∀ k, (l'.under k).length ≤ (l.under k).length := by
      intro k
      by_cases hk : k = key
      · subst hk
        rw [hands.under]
        exact Nat.le_succ _
      · rw [hands.others k hk]
    have hglobal := h.global
    have hlength := hands.length
    rw [hpool, hledger]
    refine ⟨rfl, fun k => ?_, fun k bucket hk => ?_, ?_, fun k => (hle k).trans (h.perKey k),
      show l'.waiting.length ≤ global by omega⟩
    · by_cases hk : k = key
      · subst hk
        dsimp only
        split
        · next hnil => rw [AList.lookup_erase, hnil]; rfl
        · rw [AList.lookup_insert]; rfl
      · rw [hands.others k hk, ← h.bucket k]
        dsimp only
        split
        · rw [AList.lookup_erase_ne hk]
        · rw [AList.lookup_insert_ne hk]
    · dsimp only at hk
      split at hk
      · exact h.nonempty k bucket (Table.lookup_of_erase hk).2
      · next hne =>
          rcases Table.lookup_insert_cases hk with ⟨rfl, rfl⟩ | ⟨-, hk⟩
          · exact hne
          · exact h.nonempty k bucket hk
    · have herase := total_erase p key
      have hinsert := total_insert p key (l'.under key).reverse
      rw [hlookup, h.total, Option.getD_some, List.length_append, List.length_singleton] at herase
      rw [hlookup, h.total, Option.getD_some, List.length_append, List.length_singleton] at hinsert
      dsimp only
      split
      · next hnil =>
          rw [hnil] at herase
          simp only [List.length_nil] at herase
          omega
      · omega

/-- Call by call the pool gives back what its ledger does. -/
theorem Keeps.run (h : Keeps perKey global p l) (calls : List (Call κ ν)) :
    (p.run perKey global calls).1 = (l.run perKey global calls).1 ∧
      Keeps perKey global (p.run perKey global calls).2 (l.run perKey global calls).2 := by
  induction calls generalizing p l with
  | nil => exact ⟨rfl, h⟩
  | cons c calls ih =>
      have hcall : (p.call perKey global c).1 = (l.call perKey global c).1 ∧
          Keeps perKey global (p.call perKey global c).2 (l.call perKey global c).2 := by
        cases c with
        | release key v => exact ⟨rfl, h.release key v⟩
        | checkout key => exact h.checkout key
      obtain ⟨hout, hkeeps⟩ := hcall
      obtain ⟨houts, hkeeps⟩ := ih hkeeps
      exact ⟨congrArg₂ List.cons hout houts, hkeeps⟩

end Pool
end Rsurl.Base
