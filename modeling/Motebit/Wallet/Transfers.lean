/-
  Motebit.Wallet.Transfers — A TRANSACTION OF TRANSFERS, and what is read back of it.

  One payer's token account pays a list of owners, each with one token account.  What the
  balances show of it is what each owner received in all; what the payer paid to itself shows
  nowhere.

  Main results: `getTransaction_reports`.
-/

import Motebit.Wallet.Transaction

namespace Motebit.Wallet

open Motebit.Lib List Function

/-! ## §1. Transactions -/

/-- A confirmed transaction of transfers of the mint: the accounts it touches, by owner, their
    balances before, and which of them it created. -/
structure TokenTransaction where
  slot : Nat
  payer : String
  transfers : List (String × Nat)
  accounts : List String
  index : String → Nat
  before : String → Nat
  created : String → Bool
  distinct : accounts.Nodup
  indexed : ∀ a ∈ accounts, ∀ b ∈ accounts, index a = index b → a = b
  payer_touched : payer ∈ accounts
  recipients_touched : ∀ t ∈ transfers, t.1 ∈ accounts
  named : ∀ a ∈ accounts, a ≠ ""
  created_empty : ∀ a, created a = true → before a = 0

namespace TokenTransaction

variable (tx : TokenTransaction)

def received (owner : String) : Nat :=
  ((tx.transfers.filter fun t => t.1 = owner).map Prod.snd).sum

/-- What the payer paid in all. -/
def paid : Nat := (tx.transfers.map Prod.snd).sum

/-- What the payer paid to others. -/
def spent : Nat := ((tx.transfers.filter fun t => t.1 ≠ tx.payer).map Prod.snd).sum

/-- The balance after the transaction. -/
def after (owner : String) : Int :=
  tx.before owner + tx.received owner - if owner = tx.payer then tx.paid else 0

def post (mint : String) : List TokenBalance :=
  tx.accounts.map fun a => ⟨tx.index a, mint, some a, some (tx.after a)⟩

/-- `preTokenBalances` of the mint: none of an account the transaction created. -/
def pre (mint : String) : List TokenBalance :=
  (tx.accounts.filter fun a => !tx.created a).map fun a =>
    ⟨tx.index a, mint, some a, some (tx.before a)⟩

/-- The RPC's true account of the transaction; it may hold balances of other mints. -/
structure Reported (mint : String) (resp : RpcTransaction) : Prop where
  slot : resp.slot = tx.slot
  succeeded : resp.failed = false
  pre : (resp.preTokenBalances.filter fun b => b.mint = mint) = tx.pre mint
  post : (resp.postTokenBalances.filter fun b => b.mint = mint) = tx.post mint

/-- A leg to each other owner that received something. -/
def legs : List TransferLeg :=
  (tx.accounts.filter fun a => a ≠ tx.payer ∧ 0 < tx.received a).map fun a => ⟨a, tx.received a⟩

end TokenTransaction

/-! ## §2. The delta table -/

theorem foldl_addRow_filter (mint : String) (sign : Int) (l : List TokenBalance)
    (rows : JsMap Nat DeltaRow) :
    l.foldl (addRow mint sign) rows = (l.filter fun b => b.mint = mint).foldl (addRow mint sign) rows := by
  induction l generalizing rows with
  | nil => rfl
  | cons b l ih =>
    by_cases hmint : b.mint = mint
    · rw [filter_cons_of_pos (by simpa using hmint), foldl_cons, foldl_cons, ih]
    · have hskip : addRow mint sign rows b = rows := by
        unfold addRow
        rw [if_pos hmint]
      rw [filter_cons_of_neg (by simpa using hmint), foldl_cons, hskip, ih]

def table (index : String → Nat) (delta : String → Int) (owners : List String) :
    JsMap Nat DeltaRow :=
  owners.map fun a => (index a, ⟨a, delta a⟩)

section

variable {index : String → Nat} {owners : List String}

theorem get_table (hindex : ∀ a ∈ owners, ∀ b ∈ owners, index a = index b → a = b)
    (delta : String → Int) {a : String} (ha : a ∈ owners) :
    (table index delta owners).get (index a) = some ⟨a, delta a⟩ := by
  induction owners with
  | nil => cases ha
  | cons b owners ih =>
    unfold table JsMap.get
    rw [map_cons, find?_cons]
    by_cases heq : index b = index a
    · have hsame : b = a := hindex b mem_cons_self a ha heq
      subst hsame
      simp
    · have hmem : a ∈ owners := by
        rcases mem_cons.mp ha with rfl | hmem
        · exact absurd rfl heq
        · exact hmem
      have hbeq : (index b == index a) = false := by simpa using heq
      rw [hbeq]
      exact ih (fun c hc d hd => hindex c (mem_cons_of_mem _ hc) d (mem_cons_of_mem _ hd)) hmem

theorem set_table (hindex : ∀ a ∈ owners, ∀ b ∈ owners, index a = index b → a = b)
    (delta : String → Int) {a : String} (ha : a ∈ owners) (d : Int) :
    (table index delta owners).set (index a) ⟨a, d⟩
      = table index (fun b => if b = a then d else delta b) owners := by
  have hany : (table index delta owners).any (fun e => e.1 == index a) = true := by
    rw [any_eq_true]
    exact ⟨(index a, ⟨a, delta a⟩), mem_map_of_mem ha, beq_self_eq_true _⟩
  unfold JsMap.set upsertBy
  rw [if_pos hany]
  unfold table updateWhere
  rw [map_map]
  apply map_congr_left
  intro b hb
  by_cases hba : b = a
  · subst hba
    simp
  · have hne : index b ≠ index a := fun heq => hba (hindex b hb a ha heq)
    simp [hba, hne]

theorem foldl_post (mint : String) (hnodup : owners.Nodup)
    (hindex : ∀ a ∈ owners, ∀ b ∈ owners, index a = index b → a = b) (hnamed : ∀ a ∈ owners, a ≠ "")
    (after : String → Int) :
    (owners.map fun a => (⟨index a, mint, some a, some (after a)⟩ : TokenBalance)).foldl
      (addRow mint 1) [] = table index after owners := by
  refine List.reverseRecOn owners (motive := fun owners => owners.Nodup →
    (∀ a ∈ owners, ∀ b ∈ owners, index a = index b → a = b) → (∀ a ∈ owners, a ≠ "") →
      (owners.map fun a => (⟨index a, mint, some a, some (after a)⟩ : TokenBalance)).foldl
        (addRow mint 1) [] = table index after owners) ?_ ?_ hnodup hindex hnamed
  · intro _ _ _
    rfl
  · intro owners a ih hnodup hindex hnamed
    obtain ⟨hbefore, -, hdistinct⟩ := nodup_append.mp hnodup
    have hfresh : ∀ e ∈ table index after owners, e.1 ≠ index a := by
      intro e he heq
      obtain ⟨b, hb, rfl⟩ := mem_map.mp he
      have hsame := hindex b (mem_append_left _ hb) a (by simp) heq
      exact hdistinct b hb a (by simp) hsame
    have hget : (table index after owners).get (index a) = none := by
      rw [← Option.isNone_iff_eq_none, ← Option.isSome_eq_false_iff, ← Bool.not_eq_true,
        JsMap.get_isSome]
      intro hin
      obtain ⟨e, he, heq⟩ := mem_map.mp hin
      exact hfresh e he heq
    rw [map_append, foldl_append, ih hbefore
      (fun b hb c hc => hindex b (mem_append_left _ hb) c (mem_append_left _ hc))
      fun b hb => hnamed b (mem_append_left _ hb)]
    show addRow mint 1 (table index after owners) ⟨index a, mint, some a, some (after a)⟩ = _
    unfold addRow
    dsimp only
    rw [if_neg (not_not.mpr rfl), if_neg (hnamed a (by simp)), hget]
    have hset : (table index after owners).set (index a) ⟨a, 0 + 1 * after a⟩
        = table index after owners ++ [(index a, ⟨a, 0 + 1 * after a⟩)] := upsertBy_of_fresh hfresh
    show (table index after owners).set (index a) ⟨a, 0 + 1 * after a⟩ = _
    rw [hset, zero_add, one_mul]
    unfold table
    rw [map_append]
    rfl

theorem foldl_pre (mint : String) {some_owners : List String} (hsub : ∀ a ∈ some_owners, a ∈ owners)
    (hnodup : some_owners.Nodup)
    (hindex : ∀ a ∈ owners, ∀ b ∈ owners, index a = index b → a = b) (hnamed : ∀ a ∈ owners, a ≠ "")
    (before : String → Int) (delta : String → Int) :
    (some_owners.map fun a => (⟨index a, mint, some a, some (before a)⟩ : TokenBalance)).foldl
      (addRow mint (-1)) (table index delta owners)
        = table index (fun a => if a ∈ some_owners then delta a - before a else delta a) owners := by
  induction some_owners generalizing delta with
  | nil => simp
  | cons a rest ih =>
    have ha : a ∈ owners := hsub a mem_cons_self
    obtain ⟨hnotin, hrest⟩ := nodup_cons.mp hnodup
    have hone : addRow mint (-1) (table index delta owners) ⟨index a, mint, some a, some (before a)⟩
          = table index (fun b => if b = a then delta a - before a else delta b) owners := by
      unfold addRow
      dsimp only
      rw [if_neg (not_not.mpr rfl), if_neg (hnamed a ha), get_table hindex delta ha]
      have hdelta : (some (DeltaRow.mk a (delta a))).map DeltaRow.delta = some (delta a) := rfl
      rw [hdelta, Option.getD_some, set_table hindex delta ha]
      congr 1
      funext b
      split
      · omega
      · rfl
    rw [map_cons, foldl_cons, hone, ih (fun b hb => hsub b (mem_cons_of_mem _ hb)) hrest]
    congr 1
    funext b
    by_cases hb : b = a
    · subst hb
      simp [hnotin]
    · simp [hb]

end

/-! ## §3. What is read back -/

namespace TokenTransaction

variable (tx : TokenTransaction)

/-- What a transaction does to an owner's balance. -/
def net (owner : String) : Int :=
  tx.received owner - if owner = tx.payer then tx.paid else 0

theorem paid_eq : tx.paid = tx.received tx.payer + tx.spent := by
  unfold paid received spent
  induction tx.transfers with
  | nil => rfl
  | cons t transfers ih =>
    rw [map_cons, sum_cons, ih]
    by_cases hself : t.1 = tx.payer
    · rw [filter_cons_of_pos (by simpa using hself),
        filter_cons_of_neg (by simpa using hself), map_cons, sum_cons]
      omega
    · rw [filter_cons_of_neg (by simpa using hself),
        filter_cons_of_pos (by simpa using hself), map_cons, sum_cons]
      omega

theorem net_payer : tx.net tx.payer = -(tx.spent : Int) := by
  unfold net
  rw [if_pos rfl, paid_eq]
  omega

variable {owner : String}

theorem net_of_ne (h : owner ≠ tx.payer) : tx.net owner = tx.received owner := by
  unfold net
  rw [if_neg h]
  omega

theorem le_received {t : String × Nat} (h : t ∈ tx.transfers) : t.2 ≤ tx.received t.1 := by
  unfold received
  obtain ⟨before, rest, hsplit⟩ := append_of_mem h
  rw [hsplit, filter_append, filter_cons_of_pos (by simp), map_append,
    sum_append, map_cons, sum_cons]
  omega

theorem received_le_spent (h : owner ≠ tx.payer) : tx.received owner ≤ tx.spent := by
  unfold received spent
  induction tx.transfers with
  | nil => exact Nat.le_refl _
  | cons t transfers ih =>
    by_cases howner : t.1 = owner
    · have hother : t.1 ≠ tx.payer := howner ▸ h
      rw [filter_cons_of_pos (by simpa using howner),
        filter_cons_of_pos (by simpa using hother), map_cons, map_cons,
        sum_cons, sum_cons]
      omega
    · rw [filter_cons_of_neg (by simpa using howner)]
      by_cases hother : t.1 = tx.payer
      · rw [filter_cons_of_neg (by simpa using hother)]
        exact ih
      · rw [filter_cons_of_pos (by simpa using hother), map_cons, sum_cons]
        omega

theorem exists_transfer (h : tx.received owner ≠ 0) : ∃ t ∈ tx.transfers, t.1 = owner := by
  by_contra hnone
  apply h
  unfold received
  have hempty : tx.transfers.filter (fun t => t.1 = owner) = [] := by
    rw [filter_eq_nil_iff]
    intro t ht hto
    rw [decide_eq_true_eq] at hto
    exact hnone ⟨t, ht, hto⟩
  rw [hempty]
  rfl

theorem losers_eq : losers (tx.accounts.map fun a => ⟨a, tx.net a⟩)
    = if tx.spent = 0 then [] else [⟨tx.payer, tx.net tx.payer⟩] := by
  have hpayer : ∀ a ∈ tx.accounts, tx.net a < 0 ↔ a = tx.payer ∧ tx.spent ≠ 0 := by
    intro a _
    by_cases ha : a = tx.payer
    · rw [ha, net_payer]
      simp
      omega
    · rw [tx.net_of_ne ha]
      simp [ha]
  unfold losers
  rw [filter_map]
  have hlost : tx.accounts.filter ((fun row : DeltaRow => decide (row.delta < 0)) ∘
      fun a => ⟨a, tx.net a⟩) = tx.accounts.filter fun a => a == tx.payer && tx.spent != 0 := by
    apply filter_congr
    intro a ha
    rw [Bool.eq_iff_iff]
    simp [hpayer a ha]
  rw [hlost]
  by_cases hspent : tx.spent = 0
  · simp [hspent]
  · simp only [bne_iff_ne.mpr hspent, Bool.and_true]
    rw [if_neg hspent, filter_beq, count_eq_one_of_mem tx.distinct tx.payer_touched]
    rfl

theorem gains_eq : gains (tx.accounts.map fun a => ⟨a, tx.net a⟩) = tx.legs := by
  have hpaid : ∀ a ∈ tx.accounts, 0 < tx.net a ↔ a ≠ tx.payer ∧ 0 < tx.received a := by
    intro a _
    by_cases ha : a = tx.payer
    · rw [ha, net_payer]
      simp
    · rw [tx.net_of_ne ha]
      simp [ha]
  unfold gains legs
  rw [filter_map, map_map]
  have hsame : (tx.accounts.filter ((fun row : DeltaRow => decide (0 < row.delta)) ∘
      fun a => ⟨a, tx.net a⟩))
        = tx.accounts.filter (fun a => a ≠ tx.payer ∧ 0 < tx.received a) := by
    apply filter_congr
    intro a ha
    rw [Bool.eq_iff_iff]
    simpa using hpaid a ha
  rw [hsame]
  apply map_congr_left
  intro a ha
  have hne : a ≠ tx.payer := by
    have hkept := (mem_filter.mp ha).2
    simp only [decide_eq_true_eq] at hkept
    exact hkept.1
  show (⟨a, tx.net a⟩ : TransferLeg) = ⟨a, tx.received a⟩
  rw [tx.net_of_ne hne]

theorem mem_legs (hne : owner ≠ tx.payer) (hpos : 0 < tx.received owner) :
    ⟨owner, tx.received owner⟩ ∈ tx.legs := by
  have htouched : owner ∈ tx.accounts := by
    obtain ⟨t, ht, rfl⟩ := tx.exists_transfer (show tx.received owner ≠ 0 by omega)
    exact tx.recipients_touched t ht
  refine mem_map.mpr ⟨owner, mem_filter.mpr ⟨htouched, ?_⟩, rfl⟩
  simp only [decide_eq_true_eq]
  exact ⟨hne, hpos⟩

theorem legs_ne_nil (h : tx.spent ≠ 0) : tx.legs ≠ [] := by
  obtain ⟨t, ht, hpos⟩ : ∃ t ∈ tx.transfers.filter (fun t => t.1 ≠ tx.payer), t.2 ≠ 0 := by
    by_contra hall
    apply h
    unfold spent
    rw [List.sum_eq_zero_iff_forall_eq_nat]
    intro n hn
    obtain ⟨t, ht, rfl⟩ := mem_map.mp hn
    by_contra hne
    exact hall ⟨t, ht, hne⟩
  obtain ⟨hmem, hother⟩ := mem_filter.mp ht
  have hreceived := tx.le_received hmem
  intro hnil
  have hin : t.1 ∈ tx.accounts.filter (fun a => a ≠ tx.payer ∧ 0 < tx.received a) := by
    rw [mem_filter]
    refine ⟨tx.recipients_touched t hmem, ?_⟩
    have hne : t.1 ≠ tx.payer := by simpa using hother
    simp only [decide_eq_true_eq]
    exact ⟨hne, by omega⟩
  rw [map_eq_nil_iff.mp hnil] at hin
  cases hin

variable {resp : RpcTransaction}

theorem deltaRows_eq {mint : String} (h : tx.Reported mint resp) :
    deltaRows mint resp = table tx.index tx.net tx.accounts := by
  unfold deltaRows
  rw [foldl_addRow_filter mint 1, h.post, foldl_addRow_filter, h.pre]
  unfold pre post
  rw [foldl_post mint tx.distinct tx.indexed tx.named]
  have hsub : ∀ a ∈ tx.accounts.filter (fun a => !tx.created a), a ∈ tx.accounts :=
    fun a ha => mem_of_mem_filter ha
  rw [foldl_pre mint hsub (tx.distinct.filter _) tx.indexed tx.named (fun a => (tx.before a : Int))]
  apply map_congr_left
  intro a ha
  congr 2
  unfold net after
  dsimp only
  by_cases hcreated : tx.created a = true
  · have hnew : a ∉ tx.accounts.filter (fun a => !tx.created a) := by
      simp [hcreated]
    rw [if_neg hnew, tx.created_empty a hcreated]
    omega
  · have hold : a ∈ tx.accounts.filter (fun a => !tx.created a) := by
      simp [ha, hcreated]
    rw [if_pos hold]
    omega

/-- **What is read back**: the payer, and a leg to each other owner that received something. -/
theorem getTransaction_reports {mint : String} (h : tx.Reported mint resp) :
    getTransaction mint (.resolved (some resp))
      = if tx.spent = 0 then .not_found else .confirmed tx.payer tx.legs tx.slot := by
  have hrows : (deltaRows mint resp).map Prod.snd = tx.accounts.map fun a => ⟨a, tx.net a⟩ := by
    rw [tx.deltaRows_eq h]
    unfold table
    rw [map_map]
    rfl
  unfold getTransaction
  dsimp only
  rw [h.succeeded, if_neg Bool.false_ne_true, hrows, readLegs_eq, tx.losers_eq, tx.gains_eq]
  by_cases hspent : tx.spent = 0
  · rw [if_pos hspent, if_pos hspent]
  · rw [if_neg hspent, if_neg hspent]
    dsimp only
    rw [nil_append, if_neg (tx.legs_ne_nil hspent), h.slot]

end TokenTransaction

end Motebit.Wallet
