/-
# `Rsurl.Http.Pools` — the connections that are parked

`pool.rs` and `http2.rs` have a pool each, for different transports and with
the same caps.  Whatever is called on them in whatever order, an idle
connection is handed out once, newest first, and the caps hold.
-/
import Rsurl.Base.PoolLedger
import Rsurl.Http.Connect

namespace Rsurl.Http

open Base (Pool Ledger Call)

section

variable {ν : Type} (calls : List (Call PoolKey ν))

/-- What is parked behind calls on an empty pool. -/
def parkedAfter : Pool PoolKey ν := (Pool.run poolPerKeyCap poolGlobalCap ∅ calls).2

/-- The deposits that were accepted and handed out meanwhile. -/
def ledgerAfter : Ledger PoolKey ν := (Ledger.run poolPerKeyCap poolGlobalCap .new calls).2

/-- What a run of calls comes to.  The ledger says by its fields that every ticket waits or was
handed out, and only once. -/
structure Disciplined : Prop where
  results : (Pool.run poolPerKeyCap poolGlobalCap ∅ calls).1 =
    (Ledger.run poolPerKeyCap poolGlobalCap .new calls).1
  bucket : ∀ key bucket, (parkedAfter calls).lookup key = some bucket →
    bucket ≠ [] ∧ bucket.length ≤ poolPerKeyCap
  total : (parkedAfter calls).total ≤ poolGlobalCap
  held : ∀ key, ((parkedAfter calls).lookup key).getD [] = ((ledgerAfter calls).under key).reverse
  hands : ∀ key v, ((parkedAfter calls).checkout key).1 = some v →
    ∃ d l', d.value = v ∧ (ledgerAfter calls).Hands l' key d
  answers : ∀ key, ((parkedAfter calls).checkout key).1 ≠ none ↔
    ∃ v, Pool.Parked (parkedAfter calls) key v
  once : ((ledgerAfter calls).handed ++ (ledgerAfter calls).waiting.map (·.ticket)).Nodup

theorem disciplined : Disciplined calls := by
  have hrun := (Pool.keeps_new : Pool.Keeps poolPerKeyCap poolGlobalCap ∅ .new).run calls
  have hkeeps : Pool.Keeps poolPerKeyCap poolGlobalCap (parkedAfter calls) (ledgerAfter calls) :=
    hrun.2
  have hbucket : ∀ key bucket, (parkedAfter calls).lookup key = some bucket →
      bucket = ((ledgerAfter calls).under key).reverse := by
    intro key bucket hlookup
    have hheld := hkeeps.bucket key
    rw [hlookup] at hheld
    exact hheld
  refine ⟨hrun.1, fun key bucket hlookup => ⟨hkeeps.nonempty key bucket hlookup, ?_⟩, ?_,
    hkeeps.bucket, fun key v hout => ?_, fun key => ⟨fun hout => ?_, ?_⟩, (ledgerAfter calls).nodup⟩
  · rw [hbucket key bucket hlookup, List.length_reverse]
    exact hkeeps.perKey key
  · exact hkeeps.total.trans_le hkeeps.global
  · rw [(hkeeps.checkout key).1] at hout
    rcases (ledgerAfter calls).checkout_cases key with ⟨-, hnone⟩ | ⟨d, l', hsome, hands⟩
    · rw [hnone] at hout
      cases hout
    · rw [hsome] at hout
      exact ⟨d, l', Option.some.inj hout, hands⟩
  · obtain ⟨v, hv⟩ := Option.ne_none_iff_exists'.mp hout
    exact ⟨v, Pool.parked_of_checkout hv⟩
  · rintro ⟨v, bucket, hlookup, hv⟩ hnone
    have hlast : bucket.getLast? = none := by
      rw [Pool.checkout, hlookup] at hnone
      exact hnone
    rw [List.getLast?_eq_none_iff.mp hlast] at hv
    cases hv

end

/-- Both pools, over every sequence of calls. -/
theorem pools_disciplined :
    (∀ calls : List (Call PoolKey Wire), Disciplined calls) ∧
      ∀ calls : List (Call PoolKey H2Wire), Disciplined calls :=
  ⟨disciplined, disciplined⟩

end Rsurl.Http
