/-
  Motebit.Payout.Chain — A CHAIN WITH ONE-TIME NONCE ACCOUNTS.

  Each nonce account holds one value at a time.  A transaction signed over a value can land
  only while the account holds it; landing, with or without an error, moves the account to a
  value it never held before.  Others may move an account too.

  Only finalized facts are modelled: `valueAt a k` is what account `a` held after slot `k`, for
  every slot up to the newest one, and `landed` lists the transactions that are final.

  Main results: `Chain.Ok.extend`, `Chain.Ok.past_not_current`.
-/

import Mathlib.Data.List.Nodup

namespace Motebit.Payout

open List

/-! ## §1. Transactions and blocks -/

/-- `DurableTransactionRef.kind`. -/
inductive TxKind
  | payout | kill
  deriving DecidableEq

/-- A transaction signed over the value `nonce` of the nonce account `account`.  A payout
    carries a transfer, a kill nothing else. -/
structure Tx where
  kind : TxKind
  account : String
  nonce : String
  destination : String
  amount : Int
  deriving DecidableEq

/-- A final transaction: `ok` when it landed without an error. -/
structure Landing where
  tx : Tx
  ok : Bool
  slot : Nat
  deriving DecidableEq

def Landing.nonce (l : Landing) : String × String := (l.tx.account, l.tx.nonce)

structure Chain where
  slot : Nat
  valueAt : String → Nat → Option String
  landed : List Landing

namespace Chain

/-- The next block may land `txs` and leave the accounts at `next`. -/
structure Block (c : Chain) (sent : Tx → Prop) (txs : List (Tx × Bool))
    (next : String → Option String) : Prop where
  sent : ∀ x ∈ txs, sent x.1
  current : ∀ x ∈ txs, c.valueAt x.1.account c.slot = some x.1.nonce
  once : (txs.map fun x => x.1.account).Nodup
  advanced : ∀ x ∈ txs, next x.1.account ≠ some x.1.nonce
  fresh : ∀ a, next a ≠ c.valueAt a c.slot → ∀ k ≤ c.slot, next a ≠ c.valueAt a k

/-- The chain with one more block. -/
def extend (c : Chain) (txs : List (Tx × Bool)) (next : String → Option String) : Chain where
  slot := c.slot + 1
  valueAt a k := if k = c.slot + 1 then next a else c.valueAt a k
  landed := c.landed ++ txs.map fun x => ⟨x.1, x.2, c.slot + 1⟩

/-- The account held this value and then moved on. -/
def Past (c : Chain) (a v : String) : Prop :=
  ∃ i j, i ≤ j ∧ j ≤ c.slot ∧ c.valueAt a i = some v ∧ c.valueAt a j ≠ some v

/-- No value returns, what landed used its value up, and no value was used up twice. -/
structure Ok (c : Chain) : Prop where
  noReturn : ∀ a v i j k, i ≤ j → j ≤ k → k ≤ c.slot → c.valueAt a i = some v →
    c.valueAt a j ≠ some v → c.valueAt a k ≠ some v
  past : ∀ l ∈ c.landed, c.Past l.tx.account l.tx.nonce
  once : (c.landed.map Landing.nonce).Nodup

/-- A later chain: nothing is rewritten, and nothing lands over a value that was past. -/
structure Extends (c c' : Chain) : Prop where
  slot : c.slot ≤ c'.slot
  valueAt : ∀ a k, k ≤ c.slot → c'.valueAt a k = c.valueAt a k
  landed : ∀ l ∈ c.landed, l ∈ c'.landed
  dead : ∀ l ∈ c'.landed, l ∈ c.landed ∨ ¬ c.Past l.tx.account l.tx.nonce

theorem Extends.refl (c : Chain) : Extends c c :=
  ⟨Nat.le_refl _, fun _ _ _ => rfl, fun _ h => h, fun _ h => .inl h⟩

variable {c : Chain} {txs : List (Tx × Bool)}

theorem Past.extends {c' : Chain} {a v : String} (h : c.Past a v) (he : c.Extends c') :
    c'.Past a v := by
  obtain ⟨i, j, hij, hj, hi, hne⟩ := h
  refine ⟨i, j, hij, Nat.le_trans hj he.slot, ?_, ?_⟩
  · rw [he.valueAt a i (Nat.le_trans hij hj)]
    exact hi
  · rw [he.valueAt a j hj]
    exact hne

theorem Ok.past_not_current (h : c.Ok) {a v : String} (hp : c.Past a v) :
    c.valueAt a c.slot ≠ some v := by
  obtain ⟨i, j, hij, hj, hi, hne⟩ := hp
  exact h.noReturn a v i j c.slot hij hj (Nat.le_refl _) hi hne

theorem Ok.landed_unique (h : c.Ok) {l l' : Landing} (hl : l ∈ c.landed) (hl' : l' ∈ c.landed)
    (ha : l.tx.account = l'.tx.account) (hn : l.tx.nonce = l'.tx.nonce) : l = l' := by
  refine inj_on_of_nodup_map h.once hl hl' ?_
  unfold Landing.nonce
  rw [ha, hn]

/-! ## §2. A block -/

theorem extend_valueAt_old (c : Chain) (txs : List (Tx × Bool)) (next : String → Option String)
    (a : String) {k : Nat} (hk : k ≤ c.slot) : (c.extend txs next).valueAt a k = c.valueAt a k := by
  show (if k = c.slot + 1 then next a else c.valueAt a k) = c.valueAt a k
  rw [if_neg (by omega)]

theorem extend_valueAt_new (c : Chain) (txs : List (Tx × Bool)) (next : String → Option String)
    (a : String) : (c.extend txs next).valueAt a (c.slot + 1) = next a := by
  show (if c.slot + 1 = c.slot + 1 then next a else c.valueAt a (c.slot + 1)) = next a
  rw [if_pos rfl]

variable {next : String → Option String} {sent : Tx → Prop}

theorem Ok.extends (h : c.Ok) (hb : c.Block sent txs next) : c.Extends (c.extend txs next) where
  slot := Nat.le_succ _
  valueAt a k hk := extend_valueAt_old c txs next a hk
  landed l hl := mem_append_left _ hl
  dead l hl := by
    rcases mem_append.mp hl with hl | hl
    · exact .inl hl
    · obtain ⟨x, hx, rfl⟩ := mem_map.mp hl
      exact .inr fun hpast => h.past_not_current hpast (hb.current x hx)

theorem Block.past (hb : c.Block sent txs next)
    {x : Tx × Bool} (hx : x ∈ txs) : (c.extend txs next).Past x.1.account x.1.nonce := by
  refine ⟨c.slot, c.slot + 1, Nat.le_succ _, Nat.le_refl _, ?_, ?_⟩
  · rw [extend_valueAt_old c txs next _ (Nat.le_refl _)]
    exact hb.current x hx
  · rw [extend_valueAt_new]
    exact hb.advanced x hx

/-- **A block keeps the chain's rules.** -/
theorem Ok.extend (h : c.Ok) (hb : c.Block sent txs next) : (c.extend txs next).Ok := by
  have he := h.extends hb
  refine ⟨?_, ?_, ?_⟩
  · intro a v i j k hij hjk hk hi hne
    have hk' : k ≤ c.slot + 1 := hk
    by_cases hknew : k = c.slot + 1
    · subst hknew
      rw [extend_valueAt_new]
      by_cases hjnew : j = c.slot + 1
      · subst hjnew
        rwa [extend_valueAt_new] at hne
      · -- the account had moved past `v` before the block, so the block cannot bring it back
        have hj : j ≤ c.slot := by omega
        rw [he.valueAt a i (by omega)] at hi
        rw [he.valueAt a j hj] at hne
        have hcur : c.valueAt a c.slot ≠ some v := h.noReturn a v i j c.slot hij hj
          (Nat.le_refl _) hi hne
        intro hnext
        have hmoved : next a ≠ c.valueAt a c.slot := by
          rw [hnext]
          exact fun heq => hcur heq.symm
        exact hb.fresh a hmoved i (by omega) (hnext.trans hi.symm)
    · have hk'' : k ≤ c.slot := by omega
      rw [he.valueAt a i (by omega)] at hi
      rw [he.valueAt a j (by omega)] at hne
      rw [he.valueAt a k hk'']
      exact h.noReturn a v i j k hij hjk hk'' hi hne
  · intro l hl
    rcases mem_append.mp hl with hl | hl
    · exact (h.past l hl).extends he
    · obtain ⟨x, hx, rfl⟩ := mem_map.mp hl
      exact hb.past hx
  · show ((c.landed ++ txs.map fun x => (⟨x.1, x.2, c.slot + 1⟩ : Landing)).map Landing.nonce).Nodup
    rw [map_append, nodup_append]
    refine ⟨h.once, ?_, ?_⟩
    · -- within the block: one transaction for each account
      rw [map_map]
      refine List.Nodup.of_map Prod.fst ?_
      rw [map_map]
      exact hb.once
    · intro p hp q hq heq
      obtain ⟨l, hl, rfl⟩ := mem_map.mp hp
      obtain ⟨l', hl', rfl⟩ := mem_map.mp hq
      obtain ⟨x, hx, rfl⟩ := mem_map.mp hl'
      have hpast := h.past l hl
      obtain ⟨ha, hn⟩ := Prod.mk.inj heq
      rw [ha, hn] at hpast
      exact h.past_not_current hpast (hb.current x hx)

end Chain

end Motebit.Payout
