/-
  Motebit.Wallet.Landing — WHAT A CONFIRMATION SAYS of a failed send.

  Sends and confirmations run interleaved, while the chain goes on.  A confirmation lists the
  wallet's latest transactions, reads each that may be the send's, and concludes absence from
  finding none once the send is old enough.

  Main results: `confirmSend_sound`, `confirmSend_blank`.
-/

import Motebit.Lib.Run
import Motebit.Wallet.Confirm
import Motebit.Wallet.Transfers

namespace Motebit.Wallet

open Motebit.Lib Motebit.Lib.Protocol List Function

/-! ## §1. The world -/

section

variable (cfg : WalletConfig)

def Carries (m : Message) (resp : RpcTransaction) : Prop :=
  ∃ tx : TokenTransaction, tx.Reported cfg.mint resp ∧ tx.payer = cfg.ownAddress ∧
    tx.transfers = [(m.toAddress, m.microAmount.toNat)]

/-- A row of a listing; it may lack the block time. -/
def describe (shows : Landed → Bool) (l : Landed) : SignatureInfo where
  signature := l.signature
  err := l.tx.failed
  blockTime := if shows l then some l.blockTime else none

/-- A true page, newest first. -/
def Lists (s : Books) (page : List SignatureInfo) : Prop :=
  ∃ order : List Landed, order.Perm s.chain ∧
    (order.Pairwise fun l l' => l'.blockTime ≤ l.blockTime) ∧
    ∃ shows, page = (order.map (describe shows)).take OUTGOING_LOOKUP_PAGE

/-- A read is true, or comes back with nothing or an error. -/
def answer (s : Books) : (q : Nat × RpcCall) → RpcResp q.2 → Books → Prop
  | (t, .getSignaturesForAddress), .ok page, s' =>
    Lists s page ∧ s' = { s with listedAtMs := update s.listedAtMs t (some s.clock) }
  | (_, .getTransaction signature), .resolved (some tx), s' =>
    (∃ l ∈ s.chain, l.signature = signature ∧ l.tx = tx) ∧ s' = s
  | (t, .getTransaction signature), .resolved none, s' =>
    s' = { s with blank := update s.blank t (signature :: s.blank t) }
  | _, _, s' => s' = s

/-- Time passes, and transactions land: one of this wallet's own after it was signed. -/
inductive Passes (s : Books) : Books → Prop
  | tick (ms : Int) (h : s.clock ≤ ms) : Passes s { s with clock := ms }
  | lands (l : Landed) (hnew : ∀ l' ∈ s.chain, l'.signature ≠ l.signature)
      (hat : l.landedAtMs = s.clock)
      (hown : ∀ m, l.signature = .own m → (∃ i send, s.sends i = some send ∧ send.signed = some m) ∧
        (l.tx.failed = false → Carries cfg m l.tx)) :
      Passes s { s with chain := l :: s.chain }

/-- A payer's `send`, as a thread. -/
def sendProg (t : Nat) (toAddress : String) (microAmount : Int) :
    Prog Books (Nat × RpcCall) (fun q => RpcResp q.2) Unit :=
  ((sendCall cfg t toAddress microAmount).lodged .whole t).detach

/-- A payer's question about its send `i`, as a thread. -/
def confirmProg (t i : Nat) (excludeSignatures : List Signature) :
    Prog Books (Nat × RpcCall) (fun q => RpcResp q.2) Unit :=
  ((confirmCall cfg t i excludeSignatures).lodged .whole t).detach

def wallet : World Books (Nat × RpcCall) fun q => RpcResp q.2 where
  init s := (∀ t, s.sends t = none ∧ s.listedAtMs t = none) ∧ s.confirmations = [] ∧
    (∀ l ∈ s.chain, ∀ l' ∈ s.chain, l.signature = l'.signature → l = l') ∧
    ∀ l ∈ s.chain, ∀ m, l.signature = .own m → l.tx.failed = false → Carries cfg m l.tx
  entry t p := (∃ toAddress microAmount, p = sendProg cfg t toAddress microAmount) ∨
    ∃ i excludeSignatures, p = confirmProg cfg t i excludeSignatures
  answer := answer
  env := Passes cfg
  crash s s' := s' = s

/-! ## §2. Payments -/

/-- One account of the mint lost, this wallet's, and one of the recipient's gained the amount. -/
structure Pays (toAddress : String) (microAmount : Int) (tx : RpcTransaction) : Prop where
  succeeded : tx.failed = false
  payer : ∃ delta, losers ((deltaRows cfg.mint tx).map Prod.snd) = [⟨cfg.ownAddress, delta⟩]
  paid : ⟨toAddress, microAmount⟩ ∈ gains ((deltaRows cfg.mint tx).map Prod.snd)

variable {cfg}

variable {resp : RpcTransaction}

/-- In a transaction of transfers: the payer is this wallet, and the amount is what the recipient
    received in all. -/
theorem Pays.received {toAddress : String} {microAmount : Int}
    (h : Pays cfg toAddress microAmount resp) {tx : TokenTransaction}
    (hreported : tx.Reported cfg.mint resp) :
    tx.payer = cfg.ownAddress ∧ (tx.received toAddress : Int) = microAmount := by
  have hrows : (deltaRows cfg.mint resp).map Prod.snd = tx.accounts.map fun a => ⟨a, tx.net a⟩ := by
    rw [tx.deltaRows_eq hreported]
    unfold table
    rw [map_map]
    rfl
  obtain ⟨-, ⟨delta, hpayer⟩, hpaid⟩ := h
  rw [hrows] at hpayer hpaid
  rw [tx.losers_eq] at hpayer
  rw [tx.gains_eq] at hpaid
  constructor
  · split at hpayer
    · cases hpayer
    · exact (DeltaRow.mk.inj (List.cons.inj hpayer).1).1
  · obtain ⟨owner, -, heq⟩ := mem_map.mp hpaid
    cases heq
    rfl

variable {query : ConfirmSendQuery}

theorem pays_of_matches {tx : RpcTransaction}
    (h : matchesQuery cfg query (getTransaction cfg.mint (.resolved (some tx))) = true) :
    Pays cfg query.toAddress query.microAmount tx := by
  unfold getTransaction at h
  dsimp only at h
  split at h
  · cases h
  next hfailed =>
  rw [readLegs_eq] at h
  cases hlosers : losers ((deltaRows cfg.mint tx).map Prod.snd) with
  | nil =>
    rw [hlosers] at h
    cases h
  | cons row rows =>
    cases rows with rw [hlosers] at h
    | cons => cases h
    | nil =>
      dsimp only at h
      split at h
      · cases h
      unfold matchesQuery at h
      rw [Bool.and_eq_true, decide_eq_true_eq, any_eq_true] at h
      obtain ⟨hpayer, leg, hleg, hexact⟩ := h
      have hexact : leg.to_owner = query.toAddress ∧ leg.amountMicro = query.microAmount := by
        simpa using hexact
      refine ⟨by simpa using hfailed, ⟨row.delta, ?_⟩, ?_⟩
      · rw [hlosers, ← hpayer]
      · rw [← hexact.1, ← hexact.2]
        exact hleg

/-- **A payment of this wallet's own is read as one.** -/
theorem matches_of_carries {m : Message}
    (h : Carries cfg m resp) (hto : m.toAddress = query.toAddress)
    (hamount : m.microAmount = query.microAmount) (hother : query.toAddress ≠ cfg.ownAddress)
    (hpos : 0 < query.microAmount) :
    matchesQuery cfg query (getTransaction cfg.mint (.resolved (some resp))) = true := by
  obtain ⟨tx, hreported, hpayer, htransfers⟩ := h
  have hne : query.toAddress ≠ tx.payer := hpayer ▸ hother
  have hreceived : (tx.received query.toAddress : Int) = query.microAmount := by
    unfold TokenTransaction.received
    rw [htransfers, filter_cons_of_pos (by simpa using hto)]
    simp only [filter_nil, map_cons, map_nil, sum_cons, sum_nil]
    omega
  have hspent : tx.spent ≠ 0 := by
    have hle := tx.received_le_spent hne
    omega
  rw [tx.getTransaction_reports hreported, if_neg hspent]
  unfold matchesQuery
  rw [Bool.and_eq_true, decide_eq_true_eq, any_eq_true]
  refine ⟨hpayer, ⟨query.toAddress, tx.received query.toAddress⟩, ?_, ?_⟩
  · exact tx.mem_legs hne (by omega)
  · rw [Bool.and_eq_true, decide_eq_true_eq, decide_eq_true_eq]
    exact ⟨rfl, hreceived⟩

/-! ## §3. Pages -/

/-- **A page that is taken to reach back far enough does**: it holds whatever landed since. -/
theorem page_covers {order : List Landed} {shows : Landed → Bool} {since : Int}
    (hsorted : order.Pairwise fun l l' => l'.blockTime ≤ l.blockTime)
    (hpage : notCovered since ((order.map (describe shows)).take OUTGOING_LOOKUP_PAGE) = false)
    {l : Landed} (hl : l ∈ order) (hsince : since ≤ l.blockTime) :
    describe shows l ∈ (order.map (describe shows)).take OUTGOING_LOOKUP_PAGE := by
  rw [← map_take] at hpage ⊢
  have hsplit : order.take OUTGOING_LOOKUP_PAGE ++ order.drop OUTGOING_LOOKUP_PAGE = order :=
    take_append_drop ..
  rw [← hsplit] at hl hsorted
  rcases mem_append.mp hl with hin | hbeyond
  · exact mem_map_of_mem hin
  · -- Beyond a full page: then its oldest row is older than the send, and so is the transaction.
    exfalso
    have hlong : OUTGOING_LOOKUP_PAGE < order.length := by
      by_contra hshort
      rw [drop_eq_nil_of_le (by omega)] at hbeyond
      cases hbeyond
    have hfull : ((order.take OUTGOING_LOOKUP_PAGE).map (describe shows)).length
        = OUTGOING_LOOKUP_PAGE := by
      rw [length_map, length_take]
      omega
    unfold notCovered at hpage
    rw [hfull, decide_eq_true (Nat.le_refl _), Bool.true_and] at hpage
    cases hlast : ((order.take OUTGOING_LOOKUP_PAGE).map (describe shows)).getLast? with rw [hlast] at hpage
    | none => cases hpage
    | some =>
      obtain ⟨x, hx, rfl⟩ := mem_map.mp (mem_of_getLast? hlast)
      have hle : l.blockTime ≤ x.blockTime := (pairwise_append.mp hsorted).2.2 x hx l hbeyond
      unfold describe at hpage
      cases hshows : shows x with
      | false =>
        rw [hshows] at hpage
        cases hpage
      | true =>
        rw [hshows, if_pos rfl] at hpage
        have hold : ¬since ≤ x.blockTime := by simpa using hpage
        omega

/-! ## §4. What a confirmation is owed -/

/-- The transaction is the send's own, and moved the money. -/
def Own (send : Send) (l : Landed) : Prop :=
  l.tx.failed = false ∧ ∃ m, send.signed = some m ∧ l.signature = .own m

/-- A send that threw at `failedAtMs` landed, if at all, before the horizon, and not before it was
    sent, up to the skew. -/
def InTime (send : Send) (failedAtMs : Int) (l : Landed) : Prop :=
  send.sentAtMs - OUTGOING_LOOKUP_SKEW_MS ≤ l.blockTime * 1000 ∧
    l.landedAtMs < failedAtMs + SOLANA_TX_LANDING_HORIZON_MS

variable (cfg)

/-- The confirmation could see the send: it was thrown before anything was signed; or the page was
    listed after the horizon, the send's own transaction was not read as nothing, and the send pays
    someone else something. -/
def Sees (a : Confirmation) (send : Send) (failedAtMs : Int) (err : SendError) : Prop :=
  beforeSigning err = true ∨
    ((∃ listedAtMs, a.listedAtMs = some listedAtMs ∧
        failedAtMs + SOLANA_TX_LANDING_HORIZON_MS ≤ listedAtMs) ∧
      (∀ m, send.signed = some m → Signature.own m ∉ a.blank) ∧
      send.toAddress ≠ cfg.ownAddress ∧ 0 < send.microAmount)

structure Sound (s : Books) (a : Confirmation) (send : Send) (failedAtMs : Int)
    (err : SendError) : Prop where
  listed : ∀ listedAtMs, a.listedAtMs = some listedAtMs → listedAtMs ≤ s.clock
  absent : a.verdict = .absent → Sees cfg a send failedAtMs err →
    (∀ m, send.signed = some m → Signature.own m ∉ a.excludeSignatures) →
    ∀ l ∈ s.chain, Own send l → ¬InTime send failedAtMs l
  landed : ∀ signature, a.verdict = .landed signature →
    ∃ l ∈ s.chain, l.signature = signature ∧ Pays cfg send.toAddress send.microAmount l.tx

structure Orderly (s : Books) : Prop where
  unique : ∀ l ∈ s.chain, ∀ l' ∈ s.chain, l.signature = l'.signature → l = l'
  carried : ∀ l ∈ s.chain, ∀ m, l.signature = .own m → l.tx.failed = false → Carries cfg m l.tx
  listed : ∀ t listedAtMs, s.listedAtMs t = some listedAtMs → listedAtMs ≤ s.clock
  signed : ∀ i send, s.sends i = some send → ∀ m, send.signed = some m →
    m.toAddress = send.toAddress ∧ m.microAmount = send.microAmount
  unsigned : ∀ i send, s.sends i = some send → ∀ failedAtMs err,
    send.failed = some (failedAtMs, err) → beforeSigning err = true → send.signed = none
  confirmed : ∀ a ∈ s.confirmations, ∃ send failedAtMs err, s.sends a.send = some send ∧
    send.failed = some (failedAtMs, err) ∧ Sound cfg s a send failedAtMs err

/-- What every step leaves: failed sends as they were, the chain and its clock going on. -/
structure Later (s s' : Books) : Prop where
  clock : s.clock ≤ s'.clock
  sends : ∀ i send, s.sends i = some send → send.failed ≠ none → s'.sends i = some send
  kept : ∀ l ∈ s.chain, l ∈ s'.chain
  fresh : ∀ l ∈ s'.chain, l ∈ s.chain ∨ s.clock ≤ l.landedAtMs

variable {s s' : Books}

theorem Later.of_same (hclock : s'.clock = s.clock) (hchain : s'.chain = s.chain)
    (hsends : ∀ i send, s.sends i = some send → send.failed ≠ none → s'.sends i = some send) :
    Later s s' := by
  refine ⟨Int.le_of_eq hclock.symm, hsends, ?_, ?_⟩
  · intro l hl
    rw [hchain]
    exact hl
  · intro l hl
    rw [hchain] at hl
    exact .inl hl

theorem Later.refl (s : Books) : Later s s := .of_same rfl rfl fun _ _ h _ => h

variable {cfg}

theorem not_inTime_of_listed {send : Send} {failedAtMs listedAtMs : Int} {l : Landed}
    (hhorizon : failedAtMs + SOLANA_TX_LANDING_HORIZON_MS ≤ listedAtMs)
    (hlanded : listedAtMs ≤ l.landedAtMs) : ¬InTime send failedAtMs l := by
  rintro ⟨-, hbefore⟩
  omega

/-- **What was so of a send stays so.** -/
theorem Sound.later {a : Confirmation} {send : Send} {failedAtMs : Int} {err : SendError}
    (h : Sound cfg s a send failedAtMs err) (hlater : Later s s')
    (hunsigned : beforeSigning err = true → send.signed = none) :
    Sound cfg s' a send failedAtMs err := by
  refine ⟨?_, ?_, ?_⟩
  · intro listedAtMs hat
    exact Int.le_trans (h.listed listedAtMs hat) hlater.clock
  · intro hverdict hsees hexclude l hl hown
    rcases hlater.fresh l hl with hold | hfresh
    · exact h.absent hverdict hsees hexclude l hold hown
    · rcases hsees with hearly | ⟨⟨listedAtMs, hat, hhorizon⟩, -⟩
      · obtain ⟨-, m, hm, -⟩ := hown
        rw [hunsigned hearly] at hm
        cases hm
      · have hlisted := h.listed listedAtMs hat
        exact not_inTime_of_listed hhorizon (by omega)
  · intro signature hverdict
    obtain ⟨l, hl, hsame, hpays⟩ := h.landed signature hverdict
    exact ⟨l, hlater.kept l hl, hsame, hpays⟩

/-! ## §5. Guarantees -/

/-- What a thread's step may do: its own send and its own reads. -/
structure Guards (t : Nat) (s s' : Books) : Prop where
  later : Later s s'
  others : ∀ u, u ≠ t → s'.sends u = s.sends u ∧ s'.listedAtMs u = s.listedAtMs u ∧
    s'.blank u = s.blank u

theorem Guards.refl (t : Nat) (s : Books) : Guards t s s := ⟨.refl s, fun _ _ => ⟨rfl, rfl, rfl⟩⟩

variable (cfg)

def protocolOf : Protocol (wallet cfg) where
  Inv := Orderly cfg
  Guar := Guards
  Fresh t s := s.sends t = none
  refl := Guards.refl

variable {cfg}

theorem Passes.later (h : Passes cfg s s') :
    Later s s' ∧ s'.sends = s.sends ∧ s'.listedAtMs = s.listedAtMs ∧ s'.blank = s.blank := by
  cases h with
  | tick ms hms =>
    exact ⟨⟨hms, fun _ _ h _ => h, fun _ h => h, fun _ h => .inl h⟩, rfl, rfl, rfl⟩
  | lands l hnew hat =>
    refine ⟨⟨Int.le_refl _, fun _ _ h _ => h, fun _ h => mem_cons_of_mem _ h, ?_⟩, rfl, rfl, rfl⟩
    intro l' hl'
    rcases mem_cons.mp hl' with rfl | hold
    · exact .inr (Int.le_of_eq hat.symm)
    · exact .inl hold

theorem stable_of_later {t : Nat} {L : Books → Prop}
    (h : ∀ s s' : Books, Orderly cfg s → Later s s' → s'.sends t = s.sends t →
      s'.listedAtMs t = s.listedAtMs t → s'.blank t = s.blank t → L s → L s') :
    (protocolOf cfg).Stable t L := by
  rintro s s' hi - (⟨u, hu, hguar⟩ | henv) hl
  · obtain ⟨hsends, hlisted, hblank⟩ := hguar.others t (Ne.symm hu)
    exact h s s' hi hguar.later hsends hlisted hblank hl
  · obtain ⟨hlater, hsends, hlisted, hblank⟩ := henv.later
    exact h s s' hi hlater (congrFun hsends t) (congrFun hlisted t) (congrFun hblank t) hl

theorem Orderly.confirmed_later (h : Orderly cfg s) (hlater : Later s s')
    (hsame : s'.confirmations = s.confirmations) :
    ∀ a ∈ s'.confirmations, ∃ send failedAtMs err, s'.sends a.send = some send ∧
      send.failed = some (failedAtMs, err) ∧ Sound cfg s' a send failedAtMs err := by
  intro a ha
  rw [hsame] at ha
  obtain ⟨send, failedAtMs, err, hsend, hfailed, hsound⟩ := h.confirmed a ha
  refine ⟨send, failedAtMs, err, hlater.sends _ send hsend (by rw [hfailed]; exact Option.some_ne_none _),
    hfailed, hsound.later hlater ?_⟩
  exact h.unsigned _ send hsend failedAtMs err hfailed

theorem Orderly.setSend {t : Nat} (h : Orderly cfg s) (send : Send)
    (hopen : ∀ old, s.sends t = some old → old.failed = none) (hsigned : ∀ m, send.signed = some m →
      m.toAddress = send.toAddress ∧ m.microAmount = send.microAmount)
    (hunsigned : ∀ failedAtMs err, send.failed = some (failedAtMs, err) →
      beforeSigning err = true → send.signed = none) :
    Orderly cfg (s.setSend t (some send)) ∧ Guards t s (s.setSend t (some send)) := by
  have hsends : ∀ i, (s.setSend t (some send)).sends i = if i = t then some send else s.sends i :=
    fun i => update_apply ..
  have hlater : Later s (s.setSend t (some send)) := by
    refine .of_same rfl rfl ?_
    intro i old hold hfailed
    rw [hsends]
    split
    next hi =>
      subst hi
      exact absurd (hopen old hold) hfailed
    · exact hold
  refine ⟨⟨h.unique, h.carried, h.listed, ?_, ?_, h.confirmed_later hlater rfl⟩, hlater, ?_⟩
  · intro i new hnew m hm
    rw [hsends] at hnew
    split at hnew
    · cases hnew
      exact hsigned m hm
    · exact h.signed i new hnew m hm
  · intro i new hnew failedAtMs err hfailed hearly
    rw [hsends] at hnew
    split at hnew
    · cases hnew
      exact hunsigned failedAtMs err hfailed hearly
    · exact h.unsigned i new hnew failedAtMs err hfailed hearly
  · intro u hu
    rw [hsends, if_neg hu]
    exact ⟨rfl, rfl, rfl⟩

theorem Orderly.reads {t : Nat} (h : Orderly cfg s) (hclock : s'.clock = s.clock)
    (hchain : s'.chain = s.chain) (hsends : s'.sends = s.sends)
    (hconfirmations : s'.confirmations = s.confirmations)
    (hlisted : ∀ u listedAtMs, s'.listedAtMs u = some listedAtMs → listedAtMs ≤ s.clock)
    (hothers : ∀ u, u ≠ t → s'.listedAtMs u = s.listedAtMs u ∧ s'.blank u = s.blank u) :
    Orderly cfg s' ∧ Guards t s s' := by
  have hlater : Later s s' := .of_same hclock hchain fun i send hsend _ => by
    rw [hsends]
    exact hsend
  refine ⟨⟨?_, ?_, ?_, ?_, ?_, h.confirmed_later hlater hconfirmations⟩, hlater, ?_⟩
  · rw [hchain]
    exact h.unique
  · rw [hchain]
    exact h.carried
  · intro u listedAtMs hat
    rw [hclock]
    exact hlisted u listedAtMs hat
  · rw [hsends]
    exact h.signed
  · rw [hsends]
    exact h.unsigned
  · intro u hu
    rw [hsends]
    exact ⟨rfl, hothers u hu⟩

variable {q : RpcCall}

/-- **One answer.** -/
theorem answer_step {t : Nat} {x : RpcResp q} (hi : Orderly cfg s)
    (ha : answer s (t, q) x s') : Orderly cfg s' ∧ Guards t s s' := by
  have hsame : s' = s → Orderly cfg s' ∧ Guards t s s' := by
    rintro rfl
    exact ⟨hi, .refl t _⟩
  cases q with
  | getSignaturesForAddress =>
    cases x with
    | error => exact hsame ha
    | ok =>
      obtain ⟨-, rfl⟩ := ha
      refine hi.reads rfl rfl rfl rfl ?_ ?_
      · intro u listedAtMs hat
        change update s.listedAtMs t (some s.clock) u = some listedAtMs at hat
        rw [update_apply] at hat
        split at hat
        · cases hat
          exact Int.le_refl _
        · exact hi.listed u listedAtMs hat
      · intro u hu
        exact ⟨update_of_ne hu .., rfl⟩
  | getTransaction =>
    cases x with
    | threw => exact hsame ha
    | resolved resp =>
      cases resp with
      | some => exact hsame ha.2
      | none =>
        obtain rfl := ha
        refine hi.reads rfl rfl rfl rfl hi.listed ?_
        intro u hu
        exact ⟨rfl, update_of_ne hu ..⟩
  | ensureGas | getUsdcBalance | getAccount | getLatestBlockhash | sendRawTransaction
  | confirmSignatureByPolling | awaitDecisiveOutcome => exact hsame ha

/-! ## §6. Sending -/

section

variable {t : Nat} {ε ε' α β : Type}

/-- A task of thread `t`, its questions marked. -/
def Obeys (cfg : WalletConfig) (t : Nat) (x : WalletTask ε α) (L : Books → Prop)
    (Q : α → Books → Prop) (E : ε → Books → Prop) : Prop :=
  (protocolOf cfg).Ensures t (x.lodged .whole t) L Q E

variable {L : Books → Prop} {E : ε → Books → Prop} {Q : α → Books → Prop} {x : WalletTask ε α}

theorem Obeys.bind {g : α → WalletTask ε β}
    {R : β → Books → Prop} (hx : Obeys cfg t x L Q E) (hg : ∀ a, Obeys cfg t (g a) (Q a) R E) :
    Obeys cfg t (x >>= g) L R E :=
  Ensures.lodged_bind hx hg

theorem Obeys.catching {h : ε → WalletTask ε' α}
    {E' : ε' → Books → Prop} (hx : Obeys cfg t x L Q E) (hh : ∀ e, Obeys cfg t (h e) (E e) Q E') :
    Obeys cfg t (Task.catching x h) L Q E' :=
  Ensures.lodged_catching hx hh

/-- The thread's send is open, and signed at most its own message. -/
def Running (toAddress : String) (microAmount : Int) (t : Nat) (s : Books) : Prop :=
  ∃ send, s.sends t = some send ∧ send.failed = none ∧ send.toAddress = toAddress ∧
    send.microAmount = microAmount ∧ ∀ m, send.signed = some m →
      m.toAddress = toAddress ∧ m.microAmount = microAmount

/-- … and nothing is signed yet. -/
def Unsigned (toAddress : String) (microAmount : Int) (t : Nat) (s : Books) : Prop :=
  ∃ send, s.sends t = some send ∧ send.failed = none ∧ send.toAddress = toAddress ∧
    send.microAmount = microAmount ∧ send.signed = none

theorem Unsigned.running {toAddress : String} {microAmount : Int} {s : Books}
    (h : Unsigned toAddress microAmount t s) : Running toAddress microAmount t s := by
  obtain ⟨send, hsend, hopen, hto, hamount, hnone⟩ := h
  refine ⟨send, hsend, hopen, hto, hamount, fun m hm => ?_⟩
  rw [hnone] at hm
  cases hm

/-- An assertion about the thread's own send alone. -/
def AboutSend (t : Nat) (L : Books → Prop) : Prop :=
  ∀ s s' : Books, s'.sends t = s.sends t → L s → L s'

theorem about_running (toAddress : String) (microAmount : Int) :
    AboutSend t (Running toAddress microAmount t) := by
  intro s s' heq h
  unfold Running
  rw [heq]
  exact h

theorem about_unsigned (toAddress : String) (microAmount : Int) :
    AboutSend t (Unsigned toAddress microAmount t) := by
  intro s s' heq h
  unfold Unsigned
  rw [heq]
  exact h

theorem AboutSend.stable {L : Books → Prop} (h : AboutSend t L) : (protocolOf cfg).Stable t L :=
  stable_of_later fun s s' _ _ hsends _ _ hl => h s s' hsends hl

theorem answer_sends {x : RpcResp q} {s s' : Books} (ha : answer s (t, q) x s') :
    s'.sends = s.sends := by
  have hsame : s' = s → s'.sends = s.sends := fun heq => heq ▸ rfl
  cases q with
  | getSignaturesForAddress =>
    cases x with
    | error => exact hsame ha
    | ok =>
      obtain ⟨-, rfl⟩ := ha
      rfl
  | getTransaction =>
    cases x with
    | threw => exact hsame ha
    | resolved resp =>
      cases resp with
      | some => exact hsame ha.2
      | none =>
        obtain rfl := ha
        rfl
  | ensureGas | getUsdcBalance | getAccount | getLatestBlockhash | sendRawTransaction
  | confirmSignatureByPolling | awaitDecisiveOutcome => exact hsame ha

theorem ask_send (hL : AboutSend t L) : Obeys cfg t (Task.ask q) L (fun _ => L) E := by
  refine .lodged_ask (fun _ => hL.stable) ?_
  intro s x s' hi hl ha
  obtain ⟨hi', hguar⟩ := answer_step hi ha
  exact ⟨hi', hguar, hL s s' (congrFun (answer_sends ha) t) hl⟩

section

variable (toAddress : String) (microAmount : Int)

/-- How a send may throw: where its error says that nothing was signed, nothing was. -/
def Threw (t : Nat) (err : SendError) (s : Books) : Prop :=
  Running toAddress microAmount t s ∧
    (beforeSigning err = true → Unsigned toAddress microAmount t s)

variable {E : ε → Books → Prop}

theorem signs_obeys (m : Message) (hto : m.toAddress = toAddress)
    (hamount : m.microAmount = microAmount) :
    Obeys cfg t (Task.modify (Books.signs t m)) (Unsigned toAddress microAmount t)
      (fun _ => Running toAddress microAmount t) E := by
  refine .lodged_modify (fun _ => (about_running _ _).stable) ?_
  rintro s hi ⟨send, hsend, hopen, hto', hamount', -⟩
  have hstep : Part.whole.put (Books.signs t m (Part.whole.get s)) s
      = s.setSend t (some { send with signed := some m }) := by
    show s.setSend t ((s.sends t).map _) = _
    rw [hsend]
    rfl
  rw [hstep]
  have hone : ∀ m', some m = some m' → m'.toAddress = toAddress ∧ m'.microAmount = microAmount := by
    intro m' hm
    cases hm
    exact ⟨hto, hamount⟩
  obtain ⟨hi', hguar⟩ := Orderly.setSend (t := t) hi { send with signed := some m }
    (fun old hold => by
      rw [hsend] at hold
      cases hold
      exact hopen)
    (fun m' hm => by
      rw [hto', hamount']
      exact hone m' hm)
    (fun failedAtMs err hfailed => by
      rw [hopen] at hfailed
      cases hfailed)
  exact ⟨hi', hguar, _, update_self .., hopen, hto', hamount', hone⟩

theorem broadcast_obeys (m : Message) : Obeys cfg t (broadcast m) (Running toAddress microAmount t)
      (fun _ => Running toAddress microAmount t) fun _ => Running toAddress microAmount t := by
  refine (ask_send (about_running _ _)).bind fun x => ?_
  cases x with
  | error => exact fun _ _ hl => hl
  | ok _ =>
    refine (ask_send (about_running _ _)).bind fun polled => ?_
    cases polled with
    | confirmed | failed | expired | pending => exact fun _ _ hl => hl

theorem afterExpiry_obeys (m : Message) (err : Thrown) :
    Obeys cfg t (afterExpiry m err) (Running toAddress microAmount t)
      (fun _ => Running toAddress microAmount t) (Threw toAddress microAmount t) := by
  unfold afterExpiry
  split
  · refine (ask_send (about_running _ _)).bind fun outcome => ?_
    cases outcome with
    | landed | failed => exact fun _ _ hl => hl
    | undecided => exact fun _ _ hl => ⟨hl, fun h => absurd h Bool.false_ne_true⟩
  · exact fun _ _ hl => ⟨hl, fun h => absurd h Bool.false_ne_true⟩

theorem orThrow_unsigned (x : Except Thrown α) :
    Obeys cfg t (orThrow x) (Unsigned toAddress microAmount t)
      (fun _ => Unsigned toAddress microAmount t) (Threw toAddress microAmount t) := by
  cases x with
  | ok => exact fun _ _ hl => hl
  | error => exact fun _ _ hl => ⟨hl.running, fun _ => hl⟩

theorem signSendConfirm_obeys (createsAccount : Bool) :
    Obeys cfg t (signSendConfirm t toAddress microAmount createsAccount)
      (Unsigned toAddress microAmount t) (fun _ => Running toAddress microAmount t)
      (Threw toAddress microAmount t) := by
  refine (ask_send (about_unsigned _ _)).bind fun x => ?_
  refine (orThrow_unsigned toAddress microAmount x).bind fun blockhash => ?_
  refine (signs_obeys toAddress microAmount _ rfl rfl).bind fun _ => ?_
  exact (broadcast_obeys toAddress microAmount _).catching
    fun err => afterExpiry_obeys toAddress microAmount _ err

theorem sendUsdc_obeys :
    Obeys cfg t (sendUsdc cfg t toAddress microAmount) (Unsigned toAddress microAmount t)
      (fun _ => Running toAddress microAmount t) (Threw toAddress microAmount t) := by
  unfold sendUsdc
  split
  · refine (ask_send (about_unsigned _ _)).bind fun x => ?_
    refine (orThrow_unsigned toAddress microAmount x).bind fun balance => ?_
    split
    · exact fun _ _ hl => ⟨hl.running, fun _ => hl⟩
    · refine (ask_send (about_unsigned _ _)).bind fun y => ?_
      refine (orThrow_unsigned toAddress microAmount y).bind fun destExists => ?_
      exact signSendConfirm_obeys toAddress microAmount _
  · exact fun _ _ hl => ⟨hl.running, fun _ => hl⟩

theorem send_obeys :
    Obeys cfg t (send cfg t toAddress microAmount) (Unsigned toAddress microAmount t)
      (fun _ => Running toAddress microAmount t) (Threw toAddress microAmount t) := by
  unfold send
  split
  · refine (ask_send (about_unsigned _ _)).bind fun x => ?_
    refine (orThrow_unsigned toAddress microAmount x).bind fun _ => ?_
    exact sendUsdc_obeys toAddress microAmount
  · exact sendUsdc_obeys toAddress microAmount

theorem fails_obeys (err : SendError) :
    Obeys cfg t (Task.modify (Books.fails t err)) (Threw toAddress microAmount t err)
      (fun _ _ => True) E := by
  refine .lodged_modify (fun _ => .true) ?_
  rintro s hi ⟨⟨send, hsend, hopen, hto, hamount, hsigned⟩, hearly⟩
  have hstep : Part.whole.put (Books.fails t err (Part.whole.get s)) s
      = s.setSend t (some { send with failed := some (s.clock, err) }) := by
    show s.setSend t ((s.sends t).map _) = _
    rw [hsend]
    rfl
  rw [hstep]
  obtain ⟨hi', hguar⟩ := Orderly.setSend (t := t) hi
    { send with failed := some (s.clock, err) }
    (fun old hold => by
      rw [hsend] at hold
      cases hold
      exact hopen)
    (fun m hm => by
      rw [hto, hamount]
      exact hsigned m hm)
    (fun failedAtMs err' hfailed hbefore => by
      cases hfailed
      obtain ⟨send', hsend', -, -, -, hnone⟩ := hearly hbefore
      rw [hsend] at hsend'
      cases hsend'
      exact hnone)
  exact ⟨hi', hguar, trivial⟩

theorem begins_obeys :
    Obeys cfg t (Task.modify (Books.begins t toAddress microAmount)) (fun s => s.sends t = none)
      (fun _ => Unsigned toAddress microAmount t) E := by
  refine .lodged_modify (fun _ => (about_unsigned _ _).stable) ?_
  intro s hi hnone
  obtain ⟨hi', hguar⟩ := Orderly.setSend (t := t) hi
    { toAddress, microAmount, sentAtMs := s.clock }
    (fun old hold => by
      rw [hnone] at hold
      cases hold)
    (by simp) (by simp)
  exact ⟨hi', hguar, _, update_self .., rfl, rfl, rfl, rfl⟩

/-- **A send**, from its start to what it leaves in the books. -/
theorem sendCall_obeys :
    Obeys cfg t (sendCall cfg t toAddress microAmount) (fun s => s.sends t = none)
      (fun _ _ => True) fun _ _ => True := by
  refine (begins_obeys toAddress microAmount).bind fun _ => ?_
  refine .catching (E := Threw toAddress microAmount t) ?_ fun err => ?_
  · refine (send_obeys toAddress microAmount).bind fun _ => ?_
    exact fun _ _ _ => trivial
  · exact fails_obeys toAddress microAmount err

end

end

/-! ## §7. Asking afterwards -/

section

variable {t i : Nat} {ε α : Type} {send : Send} {failedAtMs : Int} {err : SendError}
  {excludeSignatures : List Signature}

def queryOf (send : Send) (failedAtMs : Int) (err : SendError)
    (excludeSignatures : List Signature) : ConfirmSendQuery :=
  ⟨send.toAddress, send.microAmount, send.sentAtMs, failedAtMs, err, excludeSignatures⟩

def Known (i : Nat) (send : Send) (failedAtMs : Int) (err : SendError) (s : Books) : Prop :=
  s.sends i = some send ∧ send.failed = some (failedAtMs, err)

theorem Known.later {s s' : Books} (h : Known i send failedAtMs err s) (hlater : Later s s') :
    Known i send failedAtMs err s' :=
  ⟨hlater.sends i send h.1 (by rw [h.2]; exact Option.some_ne_none _), h.2⟩

/-- Where the page was listed after the horizon, a payment of the send's that landed is still to be
    read, is among the matches, or was read as nothing. -/
def Covers (cfg : WalletConfig) (query : ConfirmSendQuery) (t : Nat) (send : Send)
    (failedAtMs listedAtMs : Int) (rest : List SignatureInfo) (signatures : List Signature)
    (s : Books) : Prop :=
  failedAtMs + SOLANA_TX_LANDING_HORIZON_MS ≤ listedAtMs → send.toAddress ≠ cfg.ownAddress →
    0 < send.microAmount → ∀ m, send.signed = some m → Signature.own m ∉ query.excludeSignatures →
    ∀ l ∈ s.chain, l.tx.failed = false → l.signature = .own m → InTime send failedAtMs l →
      (∃ info ∈ rest, skipped query info = false ∧ info.signature = .own m) ∨
        Signature.own m ∈ signatures ∨ Signature.own m ∈ s.blank t

/-- Every match is a payment. -/
def AllPay (cfg : WalletConfig) (send : Send) (signatures : List Signature) (s : Books) : Prop :=
  ∀ signature ∈ signatures, ∃ l ∈ s.chain, l.signature = signature ∧
    Pays cfg send.toAddress send.microAmount l.tx

/-- The page as far as it is read. -/
structure Reading (cfg : WalletConfig) (query : ConfirmSendQuery) (t i : Nat) (send : Send)
    (failedAtMs : Int) (err : SendError) (rest : List SignatureInfo)
    (signatures : List Signature) (s : Books) : Prop where
  known : Known i send failedAtMs err s
  covers : ∃ listedAtMs, s.listedAtMs t = some listedAtMs ∧
    Covers cfg query t send failedAtMs listedAtMs rest signatures s
  pay : AllPay cfg send signatures s

variable {signatures : List Signature} {E : ε → Books → Prop}

theorem AllPay.later {s s' : Books} (h : AllPay cfg send signatures s) (hlater : Later s s') :
    AllPay cfg send signatures s' := by
  intro signature hmem
  obtain ⟨l, hl, hsame, hpays⟩ := h signature hmem
  exact ⟨l, hlater.kept l hl, hsame, hpays⟩

variable {rest : List SignatureInfo}

theorem Reading.later {s s' : Books}
    (h : Reading cfg query t i send failedAtMs err rest signatures s) (hi : Orderly cfg s)
    (hlater : Later s s') (hlisted : s'.listedAtMs t = s.listedAtMs t)
    (hblank : s'.blank t = s.blank t) :
    Reading cfg query t i send failedAtMs err rest signatures s' := by
  obtain ⟨hknown, ⟨listedAtMs, hat, hcovers⟩, hpay⟩ := h
  refine ⟨hknown.later hlater, ⟨listedAtMs, hlisted.trans hat, ?_⟩, hpay.later hlater⟩
  intro hhorizon hother hpos m hm hexclude l hl hok hsame htime
  rw [hblank]
  rcases hlater.fresh l hl with hold | hfresh
  · exact hcovers hhorizon hother hpos m hm hexclude l hold hok hsame htime
  · have hclock := hi.listed t listedAtMs hat
    exact absurd htime (not_inTime_of_listed hhorizon (by omega))

theorem stable_reading (query : ConfirmSendQuery) (rest : List SignatureInfo)
    (signatures : List Signature) :
    (protocolOf cfg).Stable t (Reading cfg query t i send failedAtMs err rest signatures) :=
  stable_of_later fun _ _ hi hlater _ hlisted hblank h => h.later hi hlater hlisted hblank

theorem stable_known : (protocolOf cfg).Stable t (Known i send failedAtMs err) :=
  stable_of_later fun _ _ _ hlater _ _ _ h => h.later hlater

/-- **The listing**: a page that is not refused covers the send. -/
theorem ask_listing (excludeSignatures : List Signature) :
    Obeys cfg t (Task.ask RpcCall.getSignaturesForAddress) (Known i send failedAtMs err)
      (fun x s => Known i send failedAtMs err s ∧ ∀ page, x = .ok page →
        notCovered (sinceSec send.sentAtMs) page = false →
        Reading cfg (queryOf send failedAtMs err excludeSignatures) t i send failedAtMs err page []
          s) E := by
  refine .lodged_ask (fun x => stable_of_later ?_) ?_
  · rintro s s' hi hlater - hlisted hblank ⟨hknown, hreading⟩
    refine ⟨hknown.later hlater, fun page hpage hcovered => ?_⟩
    exact (hreading page hpage hcovered).later hi hlater hlisted hblank
  · intro s x s' hi hknown ha
    obtain ⟨hi', hguar⟩ := answer_step (q := .getSignaturesForAddress) hi ha
    refine ⟨hi', hguar, hknown.later hguar.later, ?_⟩
    rintro page rfl hcovered
    obtain ⟨⟨order, hperm, hsorted, shows, rfl⟩, rfl⟩ := ha
    refine ⟨hknown.later hguar.later, ⟨s.clock, update_self .., ?_⟩, ?_⟩
    · intro _ _ _ m _ hexclude l hl hok hsame htime
      left
      have hsince : sinceSec send.sentAtMs ≤ l.blockTime := by
        have hbefore := htime.1
        unfold sinceSec
        omega
      refine ⟨_, page_covers hsorted hcovered (hperm.mem_iff.mpr hl) hsince, ?_, hsame⟩
      unfold skipped describe queryOf
      dsimp only
      rw [hok, hsame]
      have hin : decide (Signature.own m ∈ excludeSignatures) = false := by
        rw [decide_eq_false_iff_not]
        exact hexclude
      rw [hin, Bool.or_false, Bool.false_or]
      cases shows l with
      | false => rfl
      | true =>
        rw [if_pos rfl]
        rw [decide_eq_false_iff_not]
        omega
    · nofun

def LookedUp (cfg : WalletConfig) (query : ConfirmSendQuery) (t i : Nat) (send : Send)
    (failedAtMs : Int) (err : SendError) : OutgoingTransferLookup → Books → Prop
  | .not_found, s => Reading cfg query t i send failedAtMs err [] [] s
  | .found signature, s => Reading cfg query t i send failedAtMs err [] [signature] s
  | _, s => Known i send failedAtMs err s

theorem stable_lookedUp (query : ConfirmSendQuery) (lookup : OutgoingTransferLookup) :
    (protocolOf cfg).Stable t (LookedUp cfg query t i send failedAtMs err lookup) := by
  cases lookup with
  | not_found => exact stable_reading query [] []
  | found signature => exact stable_reading query [] [signature]
  | ambiguous | rpc_error => exact stable_known

/-- **One read** of a listed signature. -/
theorem ask_read {info : SignatureInfo} :
    Obeys cfg t (Task.ask (RpcCall.getTransaction info.signature))
      (Reading cfg (queryOf send failedAtMs err excludeSignatures) t i send failedAtMs err
        (info :: rest) signatures)
      (fun x s => Known i send failedAtMs err s ∧
        ((∀ reason, getTransaction cfg.mint x ≠ .rpc_error reason) →
          Reading cfg (queryOf send failedAtMs err excludeSignatures) t i send failedAtMs err rest
            (if matchesQuery cfg (queryOf send failedAtMs err excludeSignatures)
              (getTransaction cfg.mint x) then signatures ++ [info.signature] else signatures) s))
      E := by
  refine .lodged_ask (fun x => stable_of_later ?_) ?_
  · rintro s s' hi hlater - hlisted hblank ⟨hknown, hreading⟩
    exact ⟨hknown.later hlater, fun hread => (hreading hread).later hi hlater hlisted hblank⟩
  intro s x s' hi hreading ha
  obtain ⟨hi', hguar⟩ := answer_step (q := .getTransaction info.signature) hi ha
  refine ⟨hi', hguar, hreading.known.later hguar.later, fun hread => ?_⟩
  obtain ⟨hknown, ⟨listedAtMs, hat, hcovers⟩, hpay⟩ := hreading
  cases x with
  | threw reason => exact absurd rfl (hread reason)
  | resolved resp =>
    cases resp with
    | none =>
      obtain rfl := ha
      have hblank : ∀ signature, signature = info.signature ∨ signature ∈ s.blank t →
          signature ∈ update s.blank t (info.signature :: s.blank t) t := by
        intro signature h
        rw [update_self]
        exact mem_cons.mpr h
      refine ⟨hknown, ⟨listedAtMs, hat, ?_⟩, hpay⟩
      intro hhorizon hother hpos m hm hexclude l hl hok hsame htime
      rcases hcovers hhorizon hother hpos m hm hexclude l hl hok hsame htime with
        ⟨info', hinfo', hkept, hown⟩ | hmatched | hnothing
      · rcases mem_cons.mp hinfo' with rfl | hrest
        · exact .inr (.inr (hblank _ (.inl hown.symm)))
        · exact .inl ⟨info', hrest, hkept, hown⟩
      · exact .inr (.inl hmatched)
      · exact .inr (.inr (hblank _ (.inr hnothing)))
    | some tx =>
      obtain ⟨⟨l', hl', hsig, rfl⟩, rfl⟩ := ha
      refine ⟨hknown, ⟨listedAtMs, hat, ?_⟩, ?_⟩
      · intro hhorizon hother hpos m hm hexclude l hl hok hsame htime
        rcases hcovers hhorizon hother hpos m hm hexclude l hl hok hsame htime with
          ⟨info', hinfo', hkept, hown⟩ | hmatched | hnothing
        · rcases mem_cons.mp hinfo' with rfl | hrest
          · -- The send's own transaction was read, and it is a payment.
            have hone : l' = l := hi.unique l' hl' l hl (hsig.trans (hown.trans hsame.symm))
            subst hone
            obtain ⟨hto, hamount⟩ := hi.signed i send hknown.1 m hm
            have hmatches : matchesQuery cfg (queryOf send failedAtMs err excludeSignatures)
                (getTransaction cfg.mint (.resolved (some l'.tx))) = true :=
              matches_of_carries (hi.carried l' hl' m hsame hok) hto hamount hother hpos
            right
            left
            rw [if_pos hmatches, ← hown]
            exact mem_append_right _ mem_cons_self
          · exact .inl ⟨info', hrest, hkept, hown⟩
        · right
          left
          split
          · exact mem_append_left _ hmatched
          · exact hmatched
        · exact .inr (.inr hnothing)
      · intro signature hmem
        split at hmem
        next hmatches =>
          rcases mem_append.mp hmem with hold | hnew
          · exact hpay signature hold
          · rw [mem_singleton] at hnew
            exact ⟨l', hl', hsig.trans hnew.symm, pays_of_matches hmatches⟩
        · exact hpay signature hmem

theorem readPage_obeys (rest : List SignatureInfo) : ∀ signatures, Obeys cfg t
      (readPage cfg (queryOf send failedAtMs err excludeSignatures) rest signatures)
      (Reading cfg (queryOf send failedAtMs err excludeSignatures) t i send failedAtMs err rest
        signatures)
      (LookedUp cfg (queryOf send failedAtMs err excludeSignatures) t i send failedAtMs err)
      fun _ _ => True := by
  induction rest with
  | nil =>
    intro signatures s _ hreading
    match signatures with
    | [] => exact hreading
    | [signature] => exact hreading
    | _ :: _ :: _ => exact hreading.known
  | cons info rest ih =>
    intro signatures
    unfold readPage
    split
    next hskipped =>
      refine (ih signatures).mono fun s _ hreading => ?_
      obtain ⟨hknown, ⟨listedAtMs, hat, hcovers⟩, hpay⟩ := hreading
      refine ⟨hknown, ⟨listedAtMs, hat, ?_⟩, hpay⟩
      intro hhorizon hother hpos m hm hexclude l hl hok hsame htime
      rcases hcovers hhorizon hother hpos m hm hexclude l hl hok hsame htime with
        ⟨info', hinfo', hkept, hown⟩ | hrest
      · rcases mem_cons.mp hinfo' with rfl | hin
        · rw [hskipped] at hkept
          cases hkept
        · exact .inl ⟨info', hin, hkept, hown⟩
      · exact .inr hrest
    · refine ask_read.bind fun x => ?_
      cases getTransaction cfg.mint x with
      | rpc_error => exact fun _ _ hl => hl.1
      | not_found | confirmed =>
        refine (ih _).mono fun s _ hl => hl.2 ?_
        nofun

def Rests (cfg : WalletConfig) (query : ConfirmSendQuery) (t i : Nat) (send : Send)
    (failedAtMs : Int) (err : SendError) (verdict : SendConfirmation) (s : Books) : Prop :=
  Known i send failedAtMs err s ∧
    (verdict = .absent → beforeSigning err = true ∨
      Reading cfg query t i send failedAtMs err [] [] s) ∧
    ∀ signature, verdict = .landed signature → AllPay cfg send [signature] s

theorem confirmSend_obeys :
    Obeys cfg t (confirmSend cfg (queryOf send failedAtMs err excludeSignatures))
      (Known i send failedAtMs err)
      (Rests cfg (queryOf send failedAtMs err excludeSignatures) t i send failedAtMs err)
      fun _ _ => True := by
  unfold confirmSend
  split
  next hearly =>
    refine fun s _ hknown => ⟨hknown, fun _ => .inl hearly, nofun⟩
  · have hlookup : Obeys cfg t
        (findOutgoingTransfer cfg (queryOf send failedAtMs err excludeSignatures))
        (Known i send failedAtMs err)
        (LookedUp cfg (queryOf send failedAtMs err excludeSignatures) t i send failedAtMs err)
        fun _ _ => True := by
      refine (ask_listing excludeSignatures).bind fun x => ?_
      cases x with
      | error => exact fun _ _ hl => hl.1
      | ok page =>
        dsimp only
        split
        · exact fun _ _ hl => hl.1
        next hcovered =>
          refine (readPage_obeys page []).mono fun s _ hl => ?_
          exact hl.2 page rfl (eq_false_of_ne_true hcovered)
    refine hlookup.bind fun lookup => ?_
    cases lookup with
    | found =>
      refine fun s _ hl => ⟨hl.known, nofun, fun signature' h => ?_⟩
      cases h
      exact hl.pay
    | ambiguous | rpc_error =>
      exact fun s _ hl => ⟨hl, nofun, nofun⟩
    | not_found =>
      refine .bind (Ensures.lodged_read
        (Q := fun _ => LookedUp cfg (queryOf send failedAtMs err excludeSignatures) t i send
          failedAtMs err .not_found)
        (fun _ => stable_lookedUp _ .not_found) fun _ _ hl => hl) fun now => ?_
      split
      · exact fun s _ hl => ⟨hl.known, fun _ => .inr hl, nofun⟩
      · exact fun s _ hl => ⟨hl.known, nofun, nofun⟩

/-- **What is written down is sound.** -/
theorem confirms_obeys (verdict : SendConfirmation) :
    Obeys cfg t (Task.modify (Books.confirms t i excludeSignatures verdict))
      (Rests cfg (queryOf send failedAtMs err excludeSignatures) t i send failedAtMs err verdict)
      (fun _ _ => True) E := by
  refine .lodged_modify (fun _ => .true) ?_
  rintro s hi ⟨hknown, habsent, hlanded⟩
  have hlater : Later s (s.confirms t i excludeSignatures verdict) :=
    .of_same rfl rfl fun _ _ h _ => h
  refine ⟨{ hi with confirmed := ?_ }, ⟨hlater, fun _ _ => ⟨rfl, rfl, rfl⟩⟩, trivial⟩
  intro a ha
  rcases mem_cons.mp ha with rfl | hold
  · refine ⟨send, failedAtMs, err, hknown.1, hknown.2, ?_, ?_, ?_⟩
    · exact fun listedAtMs hat => hi.listed t listedAtMs hat
    · rintro hverdict hsees hexclude l hl ⟨hok, m, hm, hsame⟩ htime
      rcases habsent hverdict with hearly | hreading
      · rw [hi.unsigned i send hknown.1 failedAtMs err hknown.2 hearly] at hm
        cases hm
      · rcases hsees with hearly | ⟨⟨listedAtMs, hat, hhorizon⟩, hblank, hother, hpos⟩
        · rw [hi.unsigned i send hknown.1 failedAtMs err hknown.2 hearly] at hm
          cases hm
        · obtain ⟨-, ⟨listedAtMs', hat', hcovers⟩, -⟩ := hreading
          have hsameTime : listedAtMs' = listedAtMs := Option.some.inj (hat'.symm.trans hat)
          subst hsameTime
          rcases hcovers hhorizon hother hpos m hm (hexclude m hm) l hl hok hsame htime with
            ⟨info, hinfo, -⟩ | hmatched | hnothing
          · cases hinfo
          · cases hmatched
          · exact hblank m hm hnothing
    · intro signature hverdict
      exact hlanded signature hverdict signature mem_cons_self
  · obtain ⟨send', failedAtMs', err', hsend, hfailed, hsound⟩ := hi.confirmed a hold
    exact ⟨send', failedAtMs', err', hsend, hfailed, hsound.later hlater
      (hi.unsigned _ send' hsend failedAtMs' err' hfailed)⟩

/-- **A confirmation**, from the books to the books. -/
theorem confirmCall_obeys :
    Obeys cfg t (confirmCall cfg t i excludeSignatures) (fun _ => True) (fun _ _ => True)
      fun _ _ => True := by
  refine .bind (Ensures.lodged_read
    (Q := fun found s => ∀ send failedAtMs err, found = some (send, failedAtMs, err) →
      Known i send failedAtMs err s) (fun found => stable_of_later ?_) ?_) fun found => ?_
  · intro s s' _ hlater _ _ _ hl send failedAtMs err hfound
    exact (hl send failedAtMs err hfound).later hlater
  · intro s _ _ send failedAtMs err hfound
    obtain ⟨send', hsend, hmap⟩ := Option.bind_eq_some_iff.mp hfound
    obtain ⟨failed, hfailed, heq⟩ := Option.map_eq_some_iff.mp hmap
    cases heq
    exact ⟨hsend, hfailed⟩
  · match found with
    | none => exact fun _ _ _ => trivial
    | some (send, failedAtMs, err) =>
      have hsend : Obeys cfg t (confirmSend cfg (queryOf send failedAtMs err excludeSignatures))
          (fun s => ∀ send' failedAtMs' err', some (send, failedAtMs, err)
            = some (send', failedAtMs', err') → Known i send' failedAtMs' err' s)
          (Rests cfg (queryOf send failedAtMs err excludeSignatures) t i send failedAtMs err)
          fun _ _ => True :=
        Ensures.mono confirmSend_obeys fun s _ hl => hl send failedAtMs err rfl
      exact hsend.bind fun verdict => confirms_obeys verdict

end

/-! ## §8. Every run -/

theorem Orderly.passes (h : Orderly cfg s) (hp : Passes cfg s s') : Orderly cfg s' := by
  obtain ⟨hlater, hsends, hlisted, -⟩ := hp.later
  have hconfirmations : s'.confirmations = s.confirmations := by
    cases hp <;> rfl
  have hconfirmed := h.confirmed_later hlater hconfirmations
  have hclock : ∀ t listedAtMs, s'.listedAtMs t = some listedAtMs → listedAtMs ≤ s'.clock := by
    intro t listedAtMs hat
    rw [hlisted] at hat
    exact Int.le_trans (h.listed t listedAtMs hat) hlater.clock
  have hsigned : ∀ i send, s'.sends i = some send → ∀ m, send.signed = some m →
      m.toAddress = send.toAddress ∧ m.microAmount = send.microAmount := by
    rw [hsends]
    exact h.signed
  have hunsigned : ∀ i send, s'.sends i = some send → ∀ failedAtMs err,
      send.failed = some (failedAtMs, err) → beforeSigning err = true → send.signed = none := by
    rw [hsends]
    exact h.unsigned
  cases hp with
  | tick => exact ⟨h.unique, h.carried, hclock, hsigned, hunsigned, hconfirmed⟩
  | lands l hnew hat hown =>
    refine ⟨?_, ?_, hclock, hsigned, hunsigned, hconfirmed⟩
    · intro x hx y hy hsame
      rcases mem_cons.mp hx with rfl | hx'
      · rcases mem_cons.mp hy with rfl | hy'
        · rfl
        · exact absurd hsame.symm (hnew y hy')
      · rcases mem_cons.mp hy with rfl | hy'
        · exact absurd hsame (hnew x hx')
        · exact h.unique x hx' y hy' hsame
    · intro x hx m hm hok
      rcases mem_cons.mp hx with rfl | hx'
      · exact (hown m hm).2 hok
      · exact h.carried x hx' m hm hok

theorem verified_wallet : (protocolOf cfg).Verified where
  init := by
    rintro s ⟨hnone, hconfirmations, hunique, hcarried⟩
    refine ⟨⟨hunique, hcarried, ?_, ?_, ?_, ?_⟩, fun t => (hnone t).1⟩
    · intro t listedAtMs hat
      rw [(hnone t).2] at hat
      cases hat
    · intro i send hsend
      rw [(hnone i).1] at hsend
      cases hsend
    · intro i send hsend
      rw [(hnone i).1] at hsend
      cases hsend
    · intro a ha
      rw [hconfirmations] at ha
      cases ha
  env s s' hi he := by
    refine ⟨hi.passes he, fun t hfresh => ?_⟩
    show s'.sends t = none
    rw [(Passes.later he).2.1]
    exact hfresh
  crash := by
    rintro s _ hi rfl
    exact ⟨hi, fun _ h => h⟩
  fresh t u s s' htu _ hguar hfresh := (hguar.others t htu).1.trans hfresh
  entry := by
    rintro t _ (⟨toAddress, microAmount, rfl⟩ | ⟨i, excludeSignatures, rfl⟩)
    · refine ⟨?_, Ensures.detach (sendCall_obeys toAddress microAmount)⟩
      exact stable_of_later fun s s' _ _ hsends _ _ h => hsends.trans h
    · refine ⟨?_, Ensures.detach (confirmCall_obeys.mono fun _ _ _ => trivial)⟩
      exact stable_of_later fun s s' _ _ hsends _ _ h => hsends.trans h

/-- **A confirmation of a failed send**, in every state a run reaches after it: a landed verdict
    names a transaction on chain that pays that amount to that address from this wallet; and where
    the confirmation could see the send, and excluded no signature of its own, an absent verdict
    means that no payment of the send's is on chain that landed in time. -/
theorem confirmSend_sound {c : Config Books (Nat × RpcCall) fun q => RpcResp q.2}
    (hreach : (wallet cfg).Reachable c) {a : Confirmation} (ha : a ∈ c.store.confirmations) :
    ∃ send failedAtMs err, c.store.sends a.send = some send ∧
      send.failed = some (failedAtMs, err) ∧
      (∀ signature, a.verdict = .landed signature → ∃ l ∈ c.store.chain,
        l.signature = signature ∧ Pays cfg send.toAddress send.microAmount l.tx) ∧
      (a.verdict = .absent → Sees cfg a send failedAtMs err →
        (∀ m, send.signed = some m → Signature.own m ∉ a.excludeSignatures) →
        ∀ l ∈ c.store.chain, Own send l → ¬InTime send failedAtMs l) := by
  obtain ⟨send, failedAtMs, err, hsend, hfailed, hsound⟩ :=
    (Protocol.sound verified_wallet hreach).confirmed a ha
  exact ⟨send, failedAtMs, err, hsend, hfailed, hsound.landed, hsound.absent⟩

end

/-! ## §9. A read that comes back with nothing -/

def sampleConfig : WalletConfig := ⟨"me", "usdc", false, fun _ => true⟩

def emptyBooks : Books where
  clock := 0
  sends _ := none
  chain := []
  listedAtMs _ := none
  blank _ := []
  confirmations := []

/-- The message of the send of five micro-units. -/
def fiveMessage : Message := ⟨"w", 5, false, "h"⟩

def lostConfirmation : SendError := .thrown ⟨"not confirmed in the bounded wait", false⟩

/-- The books after that send was broadcast and its confirmation lost. -/
def sentBooks : Books :=
  ((emptyBooks.begins 0 "w" 5).signs 0 fiveMessage).fails 0 lostConfirmation

/-- The send as the books have it then. -/
def fiveSend : Send := ⟨"w", 5, 0, some fiveMessage, some (0, lostConfirmation)⟩

theorem walk_send : Walk (wallet sampleConfig) (sendProg sampleConfig 0 "w" 5) emptyBooks
    (.done ()) sentBooks :=
  .atomic (.await (x := Except.ok (10 : Int)) rfl (.await (x := Except.ok true) rfl
    (.await (x := Except.ok "h") rfl (.atomic (.await (x := Except.ok ()) rfl
      (.await (x := Polled.pending ⟨"not confirmed in the bounded wait", false⟩) rfl
        (.atomic .refl)))))))

/-- The transfer of that send. -/
theorem nothing_created (_ : String) (h : false = true) : 9 = 0 := by
  cases h

def fivePaid : TokenTransaction where
  slot := 0
  payer := "me"
  transfers := [("w", 5)]
  accounts := ["me", "w"]
  index a := if a = "me" then 0 else 1
  before _ := 9
  created _ := false
  distinct := by decide
  indexed := by decide
  payer_touched := by decide
  recipients_touched := by decide
  named := by decide
  created_empty := nothing_created

def fiveLanded : Landed :=
  ⟨.own fiveMessage, 0, 0, ⟨0, false, fivePaid.pre "usdc", fivePaid.post "usdc"⟩⟩

/-- The books long after the send, with what is on chain. -/
def laterBooks (chain : List Landed) : Books := { sentBooks with chain, clock := 200000 }

theorem lists_all {s : Books} {l : List Landed} (hchain : s.chain = l) (hone : l.length ≤ 1) :
    Lists s (l.map (describe fun _ => true)) := by
  refine ⟨l, by rw [hchain], ?_, fun _ => true, ?_⟩
  · match l with
    | [] => exact .nil
    | [x] => exact pairwise_singleton ..
  · rw [take_of_length_le]
    rw [length_map]
    exact Nat.le_trans hone (by decide)

theorem walk_confirm_nothing : ∃ s, Walk (wallet sampleConfig) (confirmProg sampleConfig 1 0 [])
    (laterBooks []) (.done ()) s ∧
      s.confirmations = [⟨0, [], .absent, some 200000, []⟩] ∧ s.sends = sentBooks.sends := by
  refine ⟨_, .atomic (.await (x := Except.ok []) ⟨lists_all rfl (by decide), rfl⟩
    (.atomic (.atomic .refl))), rfl, rfl⟩

theorem walk_confirm_blank : ∃ s, Walk (wallet sampleConfig) (confirmProg sampleConfig 1 0 [])
    (laterBooks [fiveLanded]) (.done ()) s ∧
      s.confirmations = [⟨0, [], .absent, some 200000, [.own fiveMessage]⟩] ∧
      s.sends = sentBooks.sends ∧ s.chain = [fiveLanded] := by
  refine ⟨_, .atomic (.await (x := Except.ok [describe (fun _ => true) fiveLanded])
    ⟨lists_all rfl (by decide), rfl⟩
    (.await (x := RpcAnswer.resolved none) rfl (.atomic (.atomic .refl)))), rfl, rfl, rfl⟩

theorem reachable_start : (wallet sampleConfig).Reachable ⟨emptyBooks, fun _ => none, 0⟩ :=
  .init _ ⟨fun t => ⟨rfl, rfl⟩, rfl, forall_mem_nil _, forall_mem_nil _⟩

theorem reachable_nothing : ∃ c, (wallet sampleConfig).Reachable c ∧
    c.store = laterBooks [] ∧ c.next = 1 := by
  have htick : (wallet sampleConfig).env sentBooks (laterBooks []) := .tick 200000 (by decide)
  obtain ⟨c, hreach, hstore, -, -, hnext⟩ := (walk_send.trans (.env htick .refl)).beside
    reachable_start (.inl ⟨"w", 5, rfl⟩)
  exact ⟨c, hreach, hstore, hnext⟩

theorem reachable_landed : ∃ c, (wallet sampleConfig).Reachable c ∧
    c.store = laterBooks [fiveLanded] ∧ c.next = 1 := by
  have hcarries : Carries sampleConfig fiveMessage fiveLanded.tx :=
    ⟨fivePaid, ⟨rfl, rfl, by decide, by decide⟩, rfl, rfl⟩
  have hlands : (wallet sampleConfig).env sentBooks { sentBooks with chain := [fiveLanded] } := by
    refine .lands fiveLanded nofun rfl ?_
    intro m hm
    cases hm
    exact ⟨⟨0, _, rfl, rfl⟩, fun _ => hcarries⟩
  have htick : (wallet sampleConfig).env { sentBooks with chain := [fiveLanded] }
      (laterBooks [fiveLanded]) := .tick 200000 (by decide)
  obtain ⟨c, hreach, hstore, -, -, hnext⟩ :=
    (walk_send.trans (.env hlands (.env htick .refl))).beside reachable_start (.inl ⟨"w", 5, rfl⟩)
  exact ⟨c, hreach, hstore, hnext⟩

/-- A confirmation that saw the send, of which nothing landed. -/
theorem confirmSend_sound_absent : ∃ (c : Config Books (Nat × RpcCall) fun q => RpcResp q.2)
    (a : Confirmation), a.verdict = .absent ∧
    ∃ send failedAtMs err, c.store.sends a.send = some send ∧
      send.failed = some (failedAtMs, err) ∧
      (∀ signature, a.verdict = .landed signature → ∃ l ∈ c.store.chain,
        l.signature = signature ∧ Pays sampleConfig send.toAddress send.microAmount l.tx) ∧
      (a.verdict = .absent → Sees sampleConfig a send failedAtMs err →
        (∀ m, send.signed = some m → Signature.own m ∉ a.excludeSignatures) →
        ∀ l ∈ c.store.chain, Own send l → ¬InTime send failedAtMs l) := by
  obtain ⟨c, hreach, hstore, hnext⟩ := reachable_nothing
  obtain ⟨s, hwalk, hconfirmations, -⟩ := walk_confirm_nothing
  obtain ⟨c', hreach', hstore', -⟩ := (hstore ▸ hwalk).beside hreach (.inr ⟨0, [], by rw [hnext]⟩)
  refine ⟨c', ⟨0, [], .absent, some 200000, []⟩, rfl, confirmSend_sound hreach' ?_⟩
  rw [hstore', hconfirmations]
  exact mem_singleton_self _

/-- **A payment that landed is called absent**: its listed signature was read before the RPC had
    indexed the transaction. -/
theorem confirmSend_blank : ∃ (c : Config Books (Nat × RpcCall) fun q => RpcResp q.2)
    (a : Confirmation) (send : Send) (failedAtMs : Int) (err : SendError),
    (wallet sampleConfig).Reachable c ∧ a ∈ c.store.confirmations ∧
      c.store.sends a.send = some send ∧ send.failed = some (failedAtMs, err) ∧
      a.verdict = .absent ∧ a.excludeSignatures = [] ∧
      ∃ l ∈ c.store.chain, Own send l ∧ InTime send failedAtMs l := by
  obtain ⟨c, hreach, hstore, hnext⟩ := reachable_landed
  obtain ⟨s, hwalk, hconfirmations, hsends, hchain⟩ := walk_confirm_blank
  obtain ⟨c', hreach', hstore', -⟩ := (hstore ▸ hwalk).beside hreach (.inr ⟨0, [], by rw [hnext]⟩)
  refine ⟨c', ⟨0, [], .absent, some 200000, [.own fiveMessage]⟩, fiveSend, 0, lostConfirmation,
    hreach', ?_, ?_, rfl, rfl, rfl, fiveLanded, ?_, ⟨rfl, fiveMessage, rfl, rfl⟩, ?_⟩
  · rw [hstore', hconfirmations]
    exact mem_singleton_self _
  · rw [hstore', hsends]
    rfl
  · rw [hstore', hchain]
    exact mem_singleton_self _
  · exact ⟨by decide, by decide⟩

end Motebit.Wallet
