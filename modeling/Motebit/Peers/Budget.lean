/-
  Motebit.Peers.Budget — STRANGERS AND A PEER'S BUDGET.

  Main results: `budget_kept`, `budget_spent`.
-/

import Motebit.Lib.Purge
import Motebit.Peers.TwoRuns

namespace Motebit.Peers

open Motebit.Lib List

variable {A K : String} {i : Int × Request} {is : List (Int × Request)} {C : FederationConfig}
  {P : QueryPolicy} {s s' : Relay}

/-! ## §1. The law -/

/-- `A`'s answer and `A`'s row after it. -/
def serve (C : FederationConfig) (P : QueryPolicy) (A : String) (s : Relay) (i : Int × Request) :
    (Answer × Option PeerRow) × Relay :=
  let x := handle C P s i
  ((x.1, x.2.peers.lookup A), x.2)

theorem alike_unwinds (C : FederationConfig) (P : QueryPolicy) (A K : String) :
    Unwinds (serve C P A) (signedBy K) (Fits C A) (Alike A K) where
  foreign _ _ _ _ hi h := (h.other hi).1
  same _ _ _ _ hi h hf := (h.own hi).same hf
  differs _ _ _ _ hi h hno := (h.own hi).differs hno

/-- A relay at which `A` is a peer under `K`, or has no row and nobody else claims its id; `A`'s
    recorded nonces and its window are its own. -/
structure Hosts (A K : String) (is : List (Int × Request)) (s : Relay) : Prop where
  honest : Honest A K is
  keyed : RowsKeyed s.peers
  held : ∀ r, s.peers.lookup A = some r → r.peeredAt.isSome ∧ toLowerCase r.publicKey = K
  claim : s.peers.lookup A = none → ∀ i ∈ is, ∀ r m, i.2 = .confirm r → r.message = .message m →
    m.envelope.sender = A → m.signer = K
  recorded : ∀ ρ ∈ s.nonces, ρ.sender = A → ∀ i ∈ is, ∀ m, i.2.carried = some m → m.signer = K →
    m.envelope.nonce = ρ.nonce → m.envelope.ts + federationNonceRetentionMs ≤ ρ.expiresAt
  room : Roomy A K is s.windows

theorem Hosts.alike {s : Relay} (h : Hosts A K is s) : Alike A K is s s :=
  ⟨h.honest, ⟨h.keyed, h.keyed⟩, rfl, h.held, h.claim, rfl,
    ⟨fun _ hρ _ => hρ, fun _ hρ _ _ => hρ, h.recorded⟩, h.room⟩

/-- The part of the condition that is about a confirm's two columns. -/
def FindsColumns (C : FederationConfig) (i : Int × Request) (s s' : Relay) : Prop :=
  let t := { s with now := i.1 }
  let t' := { s' with now := i.1 }
  match i.2 with
  | .confirm r => C.federationEnabled = true → ∀ m existing, (confirmRoute C r).Passes m existing t →
      Unseen m t → cosmeticColumns r existing t = cosmeticColumns r existing t'
  | _ => True

/-- Someone else's request that is counted under `A`'s id before it is verified. -/
def Strays (A K : String) (i : Int × Request) : Prop :=
  signedBy K i = false ∧ i.2.countedUnverified = true ∧ i.2.names = some A

/-- The two runs where no request strays: `A`'s window is the same in both. -/
structure Unspent (A K : String) (is : List (Int × Request)) (s s' : Relay) : Prop where
  alike : Alike A K is s s'
  none : ∀ i ∈ is, ¬Strays A K i
  window : s.windows A = s'.windows A

theorem Unspent.hasRoom (h : Unspent A K (i :: is) s s') (hi : signedBy K i = true) :
    HasRoom A { s with now := i.1 } := by
  have halone := (h.alike.room.counts h.alike.honest hi).1
  unfold checkLimit at halone
  unfold HasRoom checkLimit
  rw [h.window]
  revert halone
  split
  · split
    · exact fun _ => rfl
    · exact fun hroom => hroom
  · exact fun _ => rfl

theorem Unspent.fits (h : Unspent A K (i :: is) s s') (hi : signedBy K i = true)
    (hcolumns : FindsColumns C i s s') : Fits C A i s s' := by
  have hroom := h.hasRoom hi
  obtain ⟨now, request⟩ := i
  unfold Fits
  unfold FindsColumns at hcolumns
  cases request with
  | propose => trivial
  | confirm => exact fun henabled m existing hp hu => ⟨hroom, hcolumns henabled m existing hp hu⟩
  | heartbeat | remove | work => exact fun _ _ _ _ => hroom
  | witness => exact hroom
  | vote => exact fun _ _ => hroom
  | discover => trivial

theorem unspent_unwinds (C : FederationConfig) (P : QueryPolicy) (A K : String) :
    Unwinds (serve C P A) (signedBy K) (Fits C A) (Unspent A K) where
  foreign i is s s' hi h := by
    obtain ⟨halike, hwindow⟩ := h.alike.other (C := C) (P := P) hi
    refine ⟨halike, fun j hj => h.none j (mem_cons_of_mem _ hj), ?_⟩
    exact (hwindow fun hcounted => h.none i mem_cons_self ⟨hi, hcounted⟩).trans h.window
  same i is s s' hi h hf := by
    have hruns := h.alike.own (C := C) (P := P) hi
    obtain ⟨hanswer, halike⟩ := hruns.same hf
    exact ⟨hanswer, halike, fun j hj => h.none j (mem_cons_of_mem _ hj), hruns.window hf h.window⟩
  differs i is s s' hi h hno := (h.alike.own hi).differs hno

/-- **Other requests and `A`'s budget**: `A`'s messages are answered, and `A`'s row moves, exactly
    as if all requests not signed with `A`'s key were away, if and only if each of `A`'s requests
    fits where it arrives.  Where no request strays there is always room. -/
theorem budget_kept (C : FederationConfig) (P : QueryPolicy) {A K : String}
    {is : List (Int × Request)} {s : Relay} (h : Hosts A K is s) :
    (answers (serve C P A) (signedBy K) is s =
        answers (serve C P A) (signedBy K) (is.filter (signedBy K)) s ↔
      Met (serve C P A) (signedBy K) (Fits C A) is s s) ∧
    ((∀ i ∈ is, ¬Strays A K i) → Met (serve C P A) (signedBy K) (FindsColumns C) is s s →
      Met (serve C P A) (signedBy K) (Fits C A) is s s) := by
  refine ⟨answers_purge_iff (alike_unwinds C P A K) is s s h.alike, fun hnone hcolumns => ?_⟩
  refine Met.strengthen (unspent_unwinds C P A K) (fun i is s s' hi h hf => h.fits hi hf) is s s ?_
    hcolumns
  exact ⟨h.alike, hnone, rfl⟩

/-! ## §2. A peer's heartbeat among strangers' requests -/

def hostKey : String := "bbbbbbbbbbbbbbbbbbbbbbbbbbbbbbbbbbbbbbbbbbbbbbbbbbbbbbbbbbbbbbbb"

def guestKey : String := "aaaaaaaaaaaaaaaaaaaaaaaaaaaaaaaaaaaaaaaaaaaaaaaaaaaaaaaaaaaaaaaa"

def hostConfig : FederationConfig where
  self := ⟨"B", hostKey⟩
  federationEnabled := true
  maxPeers := 50
  blockedPeers := []
  allowedPeers := []
  relaySpecVersion := "motebit/relay-federation@2.0"
  tag := fun key _ _ _ _ _ => key

def guestRow : PeerRow :=
  ⟨"A", guestKey, "https://A", none, .active, none, some 600000, some 600000, 0, 0, none, none⟩

def hosting : Relay where
  now := 600000
  peers := (∅ : PeerTable).insert "A" guestRow
  nonces := []
  windows := fun _ => none
  cosmetics := []
  handshakeKey := ""

def guestHeartbeat : SignedFederationMessage :=
  ⟨⟨.heartbeat, "A", "B", hostKey, 660000, "beat", .heartbeat 1 [], federationMessageSuite⟩, guestKey⟩

/-- `k` witness requests that name `A`, signed by nobody, and then `A`'s heartbeat. -/
def noisy (k : Nat) : List (Int × Request) :=
  List.replicate k (660000, .witness ⟨"A", "A", ""⟩) ++
    [(660000, .heartbeat ⟨.message guestHeartbeat, some 1, []⟩)]

theorem noisy_signed {k : Nat} {i : Int × Request} (hi : i ∈ noisy k) (hs : signedBy guestKey i = true) :
    i = (660000, .heartbeat ⟨.message guestHeartbeat, some 1, []⟩) := by
  rcases mem_append.mp hi with hmem | hmem
  · rw [(mem_replicate.mp hmem).2] at hs
    exact absurd hs (by decide +kernel)
  · exact mem_singleton.mp hmem

theorem noisy_carried {k : Nat} {i : Int × Request} {m : SignedFederationMessage} (hi : i ∈ noisy k)
    (hm : i.2.carried = some m) : m = guestHeartbeat := by
  rcases mem_append.mp hi with hmem | hmem
  · rw [(mem_replicate.mp hmem).2] at hm
    cases hm
  · rw [mem_singleton.mp hmem] at hm
    exact (Option.some.inj hm).symm

theorem noisy_honest (k : Nat) : Honest "A" guestKey (noisy k) where
  sorted := by
    have htime : ∀ i ∈ noisy k, i.1 = 660000 := by
      intro i hi
      rcases mem_append.mp hi with hmem | hmem
      · rw [(mem_replicate.mp hmem).2]
      · rw [mem_singleton.mp hmem]
    refine pairwise_of_forall_mem_list fun i hi j hj => ?_
    rw [htime i hi, htime j hj]
  own i hi hs := by
    rw [noisy_signed hi hs]
    rfl
  nonces i hi j hj m m' hm hm' _ _ _ := by
    rw [noisy_carried hi hm, noisy_carried hj hm']
  modest t := by
    have hone : (noisy k).filter (signedBy guestKey) =
        [(660000, .heartbeat ⟨.message guestHeartbeat, some 1, []⟩)] := by
      unfold noisy
      rw [filter_append, filter_replicate, if_neg (by decide +kernel)]
      rfl
    have hsub : ((noisy k).filter fun i => signedBy guestKey i && (t ≤ i.1 && i.1 < t + windowMs)).Sublist
        ((noisy k).filter (signedBy guestKey)) :=
      monotone_filter_right _ fun i hi => (Bool.and_eq_true_iff.mp hi).1
    refine Nat.le_trans hsub.length_le ?_
    rw [hone]
    decide

theorem noisy_hosts (k : Nat) : Hosts "A" guestKey (noisy k) hosting where
  honest := noisy_honest k
  keyed := RowsKeyed.insert (fun id r hr => by cases hr) rfl
  held r hr := by
    cases (AList.lookup_insert _).symm.trans hr
    exact ⟨rfl, by decide +kernel⟩
  claim hnone := by
    cases (AList.lookup_insert _).symm.trans hnone
  recorded := nofun
  room := fun _ h => by cases h

def openPolicy : QueryPolicy := ⟨true, false⟩

/-- One witness request that names `A` leaves room for `A`'s heartbeat. -/
theorem budget_kept_once : Hosts "A" guestKey (noisy 1) hosting ∧
    Met (serve hostConfig openPolicy "A") (signedBy guestKey) (Fits hostConfig "A") (noisy 1) hosting
      hosting := by
  refine ⟨noisy_hosts 1, (budget_kept hostConfig openPolicy (noisy_hosts 1)).1.mp ?_⟩
  decide +kernel

/-- **Strangers spend `A`'s budget**: after thirty witness requests that name `A` and carry nobody's
    signature, `A`'s heartbeat is refused; alone it is acknowledged. -/
theorem budget_spent : Hosts "A" guestKey (noisy 30) hosting ∧
    (∀ i ∈ (noisy 30).take 30, signedBy guestKey i = false) ∧
    answers (serve hostConfig openPolicy "A") (signedBy guestKey) (noisy 30) hosting =
      [(.error (.inl (.rateLimited 60)), some guestRow)] ∧
    answers (serve hostConfig openPolicy "A") (signedBy guestKey) ((noisy 30).filter (signedBy guestKey))
      hosting = [(.ok .acknowledged, some (heartbeatRow 1 660000 guestRow))] := by
  refine ⟨noisy_hosts 30, ?_, ?_, ?_⟩ <;> decide +kernel

end Motebit.Peers
