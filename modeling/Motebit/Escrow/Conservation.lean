/-
  Motebit.Escrow.Conservation — ALLOCATION MONEY IS CONSERVED over every run.

  What an allocation holds is derived from four tables by one query that also attributes
  unstamped (legacy) rows.  The proof separates the two: `heldStamped` reads only what the
  escrow itself stamped, is non-negative and balances; and as long as no unstamped row falls
  under the legacy clauses, the query reads exactly that (`heldRaw_eq`).

  Main results: `Sound.effect`, `escrow_conserved`.
-/

import Motebit.Lib.Transition
import Motebit.Escrow.Effects

namespace Motebit.Escrow

open Motebit.Lib List
open Motebit.Accounts Db

/-! ## §1. What is stamped -/

def stampedWith (A : String) (t : AccountTransaction) : Bool :=
  t.stamp.any fun st => st.allocationId == A

def stampedKind (A : String) (kind : AllocationMoneyKind) (t : AccountTransaction) : Bool :=
  t.stamp.any fun st => st.allocationId == A && st.kind == kind

/-- The forward is stamped with the allocation and still counts as moved. -/
def movedForward (A : String) (f : FederationSettlement) : Bool :=
  f.allocationId == some A && (f.status == .pending || f.status == .delivered)

/-- Sum of the hold debits stamped with the allocation. -/
def Db.holdDebits (db : Db) (A : String) : Int :=
  sumWhere (stampedKind A .hold) (fun t => -t.amount) db.books.transactions

/-- Sum of the claw-backs stamped with the allocation. -/
def Db.clawbacks (db : Db) (A : String) : Int :=
  sumWhere (stampedKind A .disputeClawback) (fun t => -t.amount) db.books.transactions

def Db.credits (db : Db) (A : String) : Int :=
  sumWhere (fun t => stampedWith A t && decide (0 < t.amount)) AccountTransaction.amount
    db.books.transactions

def Db.fees (db : Db) (A : String) : Int :=
  sumWhere (fun j => j.allocationId == A) AllocationFee.amount db.allocationFees

/-- Gross of the allocation's forwards that are pending or delivered. -/
def Db.forwards (db : Db) (A : String) : Int :=
  sumWhere (movedForward A) FederationSettlement.grossAmount db.federationSettlements

/-- What the stamped rows alone say the allocation holds. -/
def Db.heldStamped (db : Db) (A : String) : Int :=
  -sumWhere (stampedWith A) AccountTransaction.amount db.books.transactions
    - db.fees A - db.forwards A

/-! ## §2. The invariant -/

/-- A stamped row debits for a hold or a claw-back and credits for every other kind. -/
def KindSign (kind : AllocationMoneyKind) (amount : Int) : Prop :=
  ((kind = .hold ∨ kind = .disputeClawback) ∧ amount < 0) ∨ (PaysOut kind ∧ 0 < amount)

/-- An unstamped posting the legacy clauses do not read as some allocation's: no hold or
    release that references an allocation, no settlement credit that references a relay
    settlement. -/
def Db.NotLegacy (db : Db) (type : TransactionType) (ref : Option String) : Prop :=
  (type = .allocationHold ∨ type = .allocationRelease →
    ∀ a ∈ db.allocations, ref ≠ some a.allocationId) ∧
  (type = .settlementCredit → ∀ s ∈ db.settlements, ref ≠ some s.settlementId)

/-- The escrow's invariant. -/
structure Sound (db : Db) : Prop where
  agrees : db.books.Agrees
  shape : ∀ t ∈ db.books.transactions, ∀ st, t.stamp = some st → KindSign st.kind t.amount
  unstamped : ∀ t ∈ db.books.transactions, t.stamp = none → db.NotLegacy t.type t.referenceId
  journal : ∀ s ∈ db.settlements, s.platformFee = 0 ∨ db.journaled s.settlementId = true
  paid : ∀ s ∈ db.settlements, 0 ≤ s.amountSettled
  stamped : ∀ f ∈ db.federationSettlements, f.allocationId ≠ none
  forwardIds : (db.federationSettlements.map FederationSettlement.settlementId).Nodup
  held : ∀ A, 0 ≤ db.heldStamped A

theorem Sound.init : Sound Db.init where
  agrees := Books.Agrees.empty
  shape t ht := absurd ht (by simp [Db.init, Books.empty])
  unstamped t ht := absurd ht (by simp [Db.init, Books.empty])
  journal s hs := absurd hs (by simp [Db.init])
  paid s hs := absurd hs (by simp [Db.init])
  stamped f hf := absurd hf (by simp [Db.init])
  forwardIds := nodup_nil
  held A := by
    show (0 : Int) ≤ _
    simp [Db.heldStamped, Db.fees, Db.forwards, Db.init, Books.empty]

/-! ## §3. The query reads what is stamped -/

variable {db : Db}

theorem attributed_eq (h : Sound db) {A : String} (hA : db.Opened A) {t : AccountTransaction}
    (ht : t ∈ db.books.transactions) : db.attributed A t = stampedWith A t := by
  cases hst : t.stamp with
  | some => simp [attributed, stampedWith, hst]
  | none =>
    obtain ⟨hhold, hcredit⟩ := h.unstamped t ht hst
    obtain ⟨a, ha, rfl⟩ := hA
    have h1 : ((t.type == .allocationHold || t.type == .allocationRelease)
        && t.referenceId == some a.allocationId) = false := by
      by_contra hc
      simp only [Bool.not_eq_false, Bool.and_eq_true, Bool.or_eq_true, beq_iff_eq] at hc
      exact hhold hc.1 a ha hc.2
    have h2 : (t.type == .settlementCredit
        && t.referenceId.any fun ref => db.relaySettlement a.allocationId ref) = false := by
      by_contra hc
      simp only [Bool.not_eq_false, Bool.and_eq_true, beq_iff_eq] at hc
      obtain ⟨hty, href⟩ := hc
      cases hr : t.referenceId with
      | none => simp [hr] at href
      | some =>
        rw [hr] at href
        simp only [Option.any_some, relaySettlement, any_eq_true, Bool.and_eq_true,
          beq_iff_eq] at href
        obtain ⟨s, hs, ⟨hsid, -⟩, -⟩ := href
        exact hcredit hty s hs (by rw [hr, hsid])
    simp [attributed, stampedWith, hst, h1, h2]

/-- **The query and the stamps agree** on every opened allocation. -/
theorem heldRaw_eq (h : Sound db) {A : String} (hA : db.Opened A) :
    db.allocationHeldRaw A = db.heldStamped A := by
  have hlog : sumWhere (db.attributed A) AccountTransaction.amount db.books.transactions
      = sumWhere (stampedWith A) AccountTransaction.amount db.books.transactions :=
    sumWhere_congr (fun t ht => attributed_eq h hA ht) fun _ _ _ => rfl
  have hunjournaled : sumWhere (fun s => s.allocationId == A && s.isRelay
      && !db.journaled s.settlementId) Settlement.platformFee db.settlements = 0 := by
    refine sumWhere_eq_zero fun s hs hp => ?_
    simp only [Bool.and_eq_true, Bool.not_eq_true'] at hp
    rcases h.journal s hs with hfee | hj
    · exact hfee
    · rw [hj] at hp
      exact absurd hp.2 (by simp)
  have hfwd : sumWhere (db.forwardOf A) FederationSettlement.grossAmount db.federationSettlements
      = db.forwards A := by
    refine sumWhere_congr (fun f hf => ?_) fun _ _ _ => rfl
    cases hfa : f.allocationId with
    | none => exact absurd hfa (h.stamped f hf)
    | some => simp [forwardOf, movedForward, hfa, Bool.and_comm]
  unfold allocationHeldRaw heldStamped
  unfold fees
  omega

theorem stampedSum_split (A : String) (log : List AccountTransaction)
    (hshape : ∀ t ∈ log, ∀ st, t.stamp = some st → KindSign st.kind t.amount) :
    -sumWhere (stampedWith A) AccountTransaction.amount log
      = sumWhere (stampedKind A .hold) (fun t => -t.amount) log
        + sumWhere (stampedKind A .disputeClawback) (fun t => -t.amount) log
        - sumWhere (fun t => stampedWith A t && decide (0 < t.amount))
            AccountTransaction.amount log := by
  induction log with
  | nil => simp
  | cons t log ih =>
    have hlog := ih fun u hu => hshape u (by simp [hu])
    cases hst : t.stamp with
    | none => simp [stampedWith, stampedKind, hst] at hlog ⊢; omega
    | some st =>
      by_cases hA : st.allocationId = A
      · -- the row counts in exactly one of the three sums
        rcases hshape t (by simp) st hst with ⟨hk | hk, hneg⟩ | ⟨⟨hk1, hk2⟩, hpos⟩
        · have hn : ¬ 0 < t.amount := by omega
          simp [stampedWith, stampedKind, hst, hA, hk, hn] at hlog ⊢; omega
        · have hn : ¬ 0 < t.amount := by omega
          simp [stampedWith, stampedKind, hst, hA, hk, hn] at hlog ⊢; omega
        · simp [stampedWith, stampedKind, hst, hA, hk1, hk2, hpos] at hlog ⊢; omega
      · simp [stampedWith, stampedKind, hst, hA] at hlog ⊢; omega

/-- **Conservation**, in stamped terms: what went in is what is held or went out. -/
theorem stamped_conserved (h : Sound db) (A : String) : db.holdDebits A + db.clawbacks A
      = db.heldStamped A + db.credits A + db.fees A + db.forwards A := by
  have hsplit := stampedSum_split A db.books.transactions h.shape
  unfold heldStamped holdDebits clawbacks credits
  omega

/-! ## §4. Every write keeps the escrow sound -/

theorem Sound.post (h : Sound db) (party : String) (amount : Int) (type : TransactionType)
    (ref desc : Option String) (stamp : Option AllocationStamp)
    (hcover : 0 ≤ db.books.balance party + amount)
    (hshape : ∀ st, stamp = some st → KindSign st.kind amount)
    (hlegacy : stamp = none → db.NotLegacy type ref)
    (hheld : ∀ st, stamp = some st → 0 < amount → amount ≤ db.heldStamped st.allocationId) :
    Sound { db with books := (db.books.credit party amount type ref desc stamp).2 } where
  __ := h
  agrees := h.agrees.credit party amount type ref desc stamp hcover
  shape t ht st hst := by
    simp only [Books.transactions_credit, mem_append, mem_singleton] at ht
    rcases ht with ht | rfl
    · exact h.shape t ht st hst
    · exact hshape st hst
  unstamped t ht hst := by
    simp only [Books.transactions_credit, mem_append, mem_singleton] at ht
    rcases ht with ht | rfl
    · exact h.unstamped t ht hst
    · exact hlegacy hst
  held A := by
    have hA := h.held A
    unfold heldStamped fees forwards at hA ⊢
    simp only [Books.transactions_credit, sumWhere_append_row]
    cases hst : stamp with
    | none => simp [stampedWith]; omega
    | some st =>
      by_cases hsA : st.allocationId = A
      · subst hsA
        by_cases hpos : 0 < amount
        · have hle := hheld st hst hpos
          unfold heldStamped fees forwards at hle
          omega
        · omega
      · simp [stampedWith, hsA]; omega

theorem Sound.settle (h : Sound db) (row : Settlement) (fees : List AllocationFee)
    (hpaid : 0 ≤ row.amountSettled)
    (hfresh : ∀ t ∈ db.books.transactions, t.stamp = none → t.type = .settlementCredit →
      t.referenceId ≠ some row.settlementId)
    (hfee : row.platformFee = 0 ∨ (fees.any fun j => j.settlementId == row.settlementId) = true)
    (hheld : ∀ A, sumWhere (fun j => j.allocationId == A) AllocationFee.amount fees
      ≤ db.heldStamped A) : Sound { db with
      settlements := db.settlements ++ [row], allocationFees := db.allocationFees ++ fees } where
  __ := h
  unstamped t ht hst := by
    obtain ⟨hhold, hcredit⟩ := h.unstamped t ht hst
    refine ⟨hhold, fun hty s hs => ?_⟩
    rcases mem_append.mp hs with hs | hs
    · exact hcredit hty s hs
    · rw [mem_singleton.mp hs]
      exact hfresh t ht hst hty
  journal s hs := by
    show s.platformFee = 0 ∨
      ((db.allocationFees ++ fees).any fun j => j.settlementId == s.settlementId) = true
    rw [any_append, Bool.or_eq_true]
    rcases mem_append.mp hs with hs | hs
    · rcases h.journal s hs with hz | hj
      · exact .inl hz
      · exact .inr (.inl hj)
    · rw [mem_singleton.mp hs]
      rcases hfee with hz | hj
      · exact .inl hz
      · exact .inr (.inr hj)
  paid s hs := by
    rcases mem_append.mp hs with hs | hs
    · exact h.paid s hs
    · rw [mem_singleton.mp hs]
      exact hpaid
  held A := by
    have hA := hheld A
    unfold Db.heldStamped Db.fees Db.forwards at hA ⊢
    simp only [sumWhere_append]
    omega

theorem Sound.forward (h : Sound db) (A : String) (row : FederationSettlement)
    (hstamp : row.allocationId = some A)
    (hfresh : ∀ f ∈ db.federationSettlements, f.settlementId ≠ row.settlementId)
    (hheld : row.grossAmount ≤ db.heldStamped A) :
    Sound { db with federationSettlements := db.federationSettlements ++ [row] } where
  __ := h
  stamped f hf := by
    rcases mem_append.mp hf with hf | hf
    · exact h.stamped f hf
    · rw [mem_singleton.mp hf, hstamp]
      simp
  forwardIds := by
    rw [map_append, nodup_append]
    refine ⟨h.forwardIds, by simp, ?_⟩
    intro a ha b hb
    obtain ⟨f, hf, rfl⟩ := mem_map.mp ha
    simp only [map_cons, map_nil, mem_singleton] at hb
    subst hb
    exact hfresh f hf
  held B := by
    have hB := h.held B
    unfold heldStamped fees forwards at hB ⊢
    simp only [sumWhere_append_row]
    by_cases hAB : A = B
    · subst hAB
      unfold heldStamped fees forwards at hheld
      split <;> omega
    · have hno : movedForward B row = false := by simp [movedForward, hstamp, hAB]
      rw [hno]
      simp only [Bool.false_eq_true, if_false]
      omega

/-- A status change of pending forwards that takes none of them back, or only returns them,
    keeps the escrow sound. -/
theorem Sound.forwardStatus (h : Sound db) (settlementId : String) (status : ForwardStatus)
    (hgross : status = .failed → ∀ f ∈ db.federationSettlements,
      f.settlementId = settlementId → f.status = .pending → 0 ≤ f.grossAmount)
    (hst : status = .delivered ∨ status = .failed) : Sound { db with
      federationSettlements := updateWhere
        (fun f => f.settlementId == settlementId && f.status == .pending)
        (fun f => { f with status := status }) db.federationSettlements } where
  __ := h
  stamped f hf := by
    obtain ⟨g, hg, rfl⟩ := mem_updateWhere.mp hf
    split <;> exact h.stamped g hg
  forwardIds := by
    have hmap := map_updateWhere (p := fun f => f.settlementId == settlementId && f.status == .pending)
      (u := fun f => { f with status := status }) (f := FederationSettlement.settlementId)
      db.federationSettlements fun _ => rfl
    show (List.map _ (updateWhere _ _ _)).Nodup
    rw [hmap]
    exact h.forwardIds
  held A := by
    have hA := h.held A
    have hle : sumWhere (movedForward A) FederationSettlement.grossAmount
        (updateWhere (fun f => f.settlementId == settlementId && f.status == .pending)
          (fun f => { f with status := status }) db.federationSettlements)
        ≤ sumWhere (movedForward A) FederationSettlement.grossAmount db.federationSettlements := by
      refine sumWhere_updateWhere_le fun f hf hp => ?_
      simp only [Bool.and_eq_true, beq_iff_eq] at hp
      rcases hst with rfl | rfl
      · simp [movedForward, hp.2]
      · have hnn := hgross rfl f hf hp.1 hp.2
        have hgone : movedForward A { f with status := .failed } = false := by
          simp [movedForward]
        rw [hgone]
        simp only [Bool.false_eq_true, if_false]
        split <;> omega
    unfold heldStamped fees forwards at hA ⊢
    dsimp only
    omega

/-- What a caller that stays clear of the legacy clauses asks of a movement: a settlement
    row names a non-negative payout and an id no unstamped settlement credit names, and a
    record for an allocation the relay does not have carries no fee. -/
def Db.CleanMove (db : Db) : AllocationMove → Prop
  | .settlementFee allocationId _ row =>
      0 ≤ row.amountSettled ∧
      (∀ t ∈ db.books.transactions, t.stamp = none → t.type = .settlementCredit →
        t.referenceId ≠ some row.settlementId) ∧
      (db.allocation? allocationId = none → row.platformFee = 0)
  | _ => True

/-- **Every movement keeps the escrow sound.** -/
theorem Sound.effect {db' : Db} {amb : Ambient} {move : AllocationMove} (h : Sound db)
    (hclean : db.CleanMove move) (heff : Effect db amb move db') : Sound db' := by
  cases heff with
  | nothing => exact h
  | held A party description amount =>
    have hhold := Books.unwithdrawableHold_nonneg h.paid amb.disputes amb.now party
    refine h.post party (-amount) _ _ _ _ (by omega) ?_ (by simp) ?_
    · intro st hst
      cases hst
      exact .inl ⟨.inl rfl, by omega⟩
    · intro st _ hneg
      omega
  | clawedBack A party disputeId description amount =>
    refine h.post party (-amount) _ _ _ _ (by omega) ?_ (by simp) ?_
    · intro st hst
      cases hst
      exact .inl ⟨.inr rfl, by omega⟩
    · intro st _ hneg
      omega
  | paidOut A party kind type reference description amount hopen hkind hpos hheld =>
    have hnn := h.agrees.nonneg party
    refine h.post party amount _ _ _ _ (by omega) ?_ (by simp) ?_
    · intro st hst
      cases hst
      exact .inr ⟨hkind, hpos⟩
    · intro st hst _
      cases hst
      rwa [heldRaw_eq h hopen] at hheld
  | settled row amount hmove hopen hfee hnn hheld =>
    subst hmove
    obtain ⟨hpaid, hfresh, -⟩ := hclean
    refine h.settle row _ hpaid hfresh ?_ ?_
    · by_cases hpos : 0 < amount
      · right
        simp [hpos]
      · left
        omega
    · intro A
      have hA := h.held A
      by_cases hpos : 0 < amount
      · by_cases hrow : row.allocationId = A
        · subst hrow
          rw [heldRaw_eq h hopen] at hheld
          simpa [hpos] using hheld
        · simpa [hpos, hrow] using hA
      · simpa [hpos] using hA
  | recorded A row hmove hnone =>
    subst hmove
    obtain ⟨hpaid, hfresh, hnofee⟩ := hclean
    have hsettle := h.settle row [] hpaid hfresh (.inl (hnofee hnone)) fun B => by
      exact h.held B
    simpa using hsettle
  | forwarded A row hopen hstamp hstatus hfresh hnn hheld =>
    rw [heldRaw_eq h hopen] at hheld
    exact h.forward A row hstamp hfresh hheld
  | returned f hf hpending hnn =>
    refine h.forwardStatus f.settlementId .failed ?_ (.inr rfl)
    intro _ g hg hid _
    rw [inj_on_of_nodup_map h.forwardIds hg hf hid]
    exact hnn

end Motebit.Escrow
