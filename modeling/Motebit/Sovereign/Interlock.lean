/-
  Motebit.Sovereign.Interlock — THE PAID-INTENT INTERLOCK across calls.

  Any number of `delegateStep` calls share one ledger.  Each asks it before it pays and writes the
  payment down after the wallet answered; between the two, another call may ask, the process may
  die, or the wallet may leave open whether the money moved.

  Main results: `sends_clear`, `sends_twice`.
-/

import Motebit.Lib.Part
import Motebit.Sovereign.Payments

namespace Motebit.Sovereign

open Motebit.Lib Motebit.Lib.Protocol List Function

/-! ## §1. The office -/

structure Call where
  cfg : SovereignDelegationConfig
  step : PlanStep
  timeoutMs : Int
  crossStepExclude : List String

/-- What the interlock locks. -/
structure Pair where
  worker : String
  capability : String
  deriving DecidableEq

/-- A payment as the ledger holds it. -/
structure LedgerRow where
  pair : Pair
  taskId : String
  resolved : Bool
  deriving DecidableEq

/-- The ledger and the calls that share it.  The other fields are a history beside them: the pair a
    call may pay for since the check let it pass, which payments landed, whether a check passed
    while something was under way for its pair, and whether the wallet called a payment absent that
    landed. -/
structure Office where
  adapter : Nat → Adapter
  ledger : List LedgerRow
  passed : Nat → Option Pair
  landed : Nat → Nat → Bool
  overlapped : Prop
  misled : Prop

namespace Office

/-- What one call keeps. -/
def desk (t : Nat) : Part Office Adapter where
  get s := s.adapter t
  put a s := { s with adapter := update s.adapter t a }
  get_put a s := update_self t a s.adapter
  put_get s := by
    show { s with adapter := update s.adapter t (s.adapter t) } = s
    rw [update_eq_self]
  put_put a b s := by
    show { s with adapter := update (update s.adapter t b) t a } = _
    rw [update_idem]

variable (s : Office)

/-- A recorded, unresolved payment for the pair exists. -/
def locked (pair : Pair) : Bool := s.ledger.any fun r => r.pair = pair && !r.resolved

/-- `recordInFlight` and `recordSettledUnretrieved`. -/
def record (pair : Pair) (taskId : String) : Office :=
  if s.ledger.any fun r => r.pair = pair && r.taskId = taskId then s
  else { s with ledger := s.ledger ++ [⟨pair, taskId, false⟩] }

def resolve (taskId : String) : Office :=
  { s with ledger := s.ledger.map fun r => if r.taskId = taskId then { r with resolved := true } else r }

def wrote (op : LedgerWrite) (entry : SovereignPaidEntry) : Office :=
  match op with
  | .recordInFlight => s.record ⟨entry.workerMotebitId, entry.capability⟩ entry.taskId
  | .recordUnretrieved => s.record ⟨entry.workerMotebitId, entry.capability⟩ entry.taskId
  | .resolve => s.resolve entry.taskId

def passes (t : Nat) (pair : Option Pair) : Office :=
  { s with passed := update s.passed t pair }

/-- How many payments a call has handed to the wallet. -/
def sent (t : Nat) : Nat := (s.adapter t).payments.length

def Recorded (pair : Pair) (p : Payment) : Prop :=
  ∃ taskId, p.taskId = some taskId ∧ ∃ r ∈ s.ledger, r.pair = pair ∧ r.taskId = taskId

def Resolved (pair : Pair) (p : Payment) : Prop :=
  ∃ taskId, p.taskId = some taskId ∧
    ∃ r ∈ s.ledger, r.pair = pair ∧ r.taskId = taskId ∧ r.resolved = true

end Office

section

variable (calls : Nat → Call)

def pairOf (t : Nat) (p : Payment) : Pair := ⟨p.worker, (calls t).step.capability⟩

/-- A call that passed the check for the pair has not paid and recorded yet, or a payment for it
    that the wallet has not proved absent is not recorded. -/
def UnderWay (s : Office) (pair : Pair) : Prop :=
  (∃ u, s.passed u = some pair) ∨
    ∃ u, ∃ p ∈ (s.adapter u).payments,
      pairOf calls u p = pair ∧ p.absent = false ∧ ¬s.Recorded pair p

/-! ## §2. The world -/

/-- What is answered to a call's question, and what that does. -/
def answer (s : Office) : (q : Nat × Question) → Answer q.2 → Office → Prop
  | (t, .ledgerCheck worker capability), .ok .unlocked, s' =>
    s.locked ⟨worker, capability⟩ = false ∧
      s' = { s.passes t (some ⟨worker, capability⟩) with
        overlapped := s.overlapped ∨ UnderWay calls s ⟨worker, capability⟩ }
  | (_, .ledgerCheck worker capability), .ok (.locked ..), s' =>
    s.locked ⟨worker, capability⟩ = true ∧ s' = s
  | (t, .ledgerWrite op entry), _, s' => s' = (s.wrote op entry).passes t none
  | (t, .onDelegationFailure ..), _, s' => s' = s.passes t none
  | (t, .confirmSend ..), .ok .absent, s' =>
    s' = { (Office.desk t).put (s.adapter t).provedAbsent s with
      misled := s.misled ∨ s.landed t (s.sent t - 1) = true }
  | (t, q), x, s' => s' = (Office.desk t).put (Adapter.hears q x (s.adapter t)) s

/-- What happens beside the calls: a payment lands, the owner resolves one, an adapter's paid
    signatures grow. -/
inductive Beside (s : Office) : Office → Prop
  | lands (t k : Nat) (p : Payment) (hp : (s.adapter t).payments.reverse[k]? = some p) :
      Beside s { s with
        landed := update s.landed t (update (s.landed t) k true)
        misled := s.misled ∨ p.absent = true }
  | resolves (taskId : String) : Beside s (s.resolve taskId)
  | signs (t : Nat) (a : Adapter) (ha : a.payments = (s.adapter t).payments) :
      Beside s ((Office.desk t).put a s)

def callProg (t : Nat) : Prog Office (Nat × Question) (fun q => Answer q.2) Unit :=
  ((delegateStep (calls t).cfg (calls t).step (calls t).timeoutMs
    (calls t).crossStepExclude).lodged (Office.desk t) t).detach

/-- Calls over one ledger, which may hold rows already. -/
def office : World Office (Nat × Question) fun q => Answer q.2 where
  init s := (∀ t, (s.adapter t).payments = [] ∧ s.passed t = none ∧ ∀ k, s.landed t k = false) ∧
    ¬s.overlapped ∧ ¬s.misled
  entry t p := (calls t).cfg.hasPaidLedger = true ∧ p = callProg calls t
  answer := answer calls
  env := Beside
  crash s s' := s' = { s with passed := fun _ => none }

/-! ## §3. What a step leaves -/

/-- A payment as a later step may have it. -/
structure Kept (p p' : Payment) : Prop where
  worker : p'.worker = p.worker
  absent : p.absent = true → p'.absent = true
  named : ∀ taskId, p.taskId = some taskId → p'.taskId = some taskId

theorem Kept.refl (p : Payment) : Kept p p := ⟨rfl, id, fun _ h => h⟩

/-- Rows stay, and stay resolved. -/
def Grows (s s' : Office) : Prop :=
  ∀ r ∈ s.ledger, ∃ r' ∈ s'.ledger,
    r'.pair = r.pair ∧ r'.taskId = r.taskId ∧ (r.resolved = true → r'.resolved = true)

variable {s s' : Office} {l : List Payment} {q : Question} {a : Adapter} {x : Answer q}

theorem Grows.of_eq (h : s'.ledger = s.ledger) : Grows s s' := by
  intro r hr
  exact ⟨r, h ▸ hr, rfl, rfl, id⟩

theorem grows_record (s : Office) (pair : Pair) (taskId : String) :
    Grows s (s.record pair taskId) := by
  unfold Office.record
  split
  · exact .of_eq rfl
  · intro r hr
    exact ⟨r, mem_append_left _ hr, rfl, rfl, id⟩

theorem grows_resolve (s : Office) (taskId : String) : Grows s (s.resolve taskId) := by
  intro r hr
  refine ⟨_, mem_map_of_mem hr, ?_⟩
  split
  · exact ⟨rfl, rfl, fun _ => rfl⟩
  · exact ⟨rfl, rfl, id⟩

theorem grows_wrote (s : Office) (op : LedgerWrite) (entry : SovereignPaidEntry) :
    Grows s (s.wrote op entry) := by
  cases op with
  | recordInFlight | recordUnretrieved => exact grows_record s _ _
  | resolve => exact grows_resolve s _

/-- The payment is proved absent, or resolved. -/
def Settled (s : Office) (pair : Pair) (p : Payment) : Prop :=
  p.absent = true ∨ s.Resolved pair p

variable {pair : Pair}

theorem Settled.mono {p p' : Payment} (h : Settled s pair p) (hgrows : Grows s s')
    (hkept : Kept p p') : Settled s' pair p' := by
  rcases h with habsent | ⟨taskId, hnamed, r, hr, hpair, htask, hresolved⟩
  · exact .inl (hkept.absent habsent)
  · obtain ⟨r', hr', hpair', htask', hmono⟩ := hgrows r hr
    refine .inr ⟨taskId, hkept.named taskId hnamed, r', hr', ?_, ?_, hmono hresolved⟩
    · rw [hpair', hpair]
    · rw [htask', htask]

def AllSettled (s : Office) (pair : Pair) : Prop :=
  ∀ u, ∀ p ∈ (s.adapter u).payments, pairOf calls u p = pair → Settled s pair p

/-- **A passing check finds every payment settled**, unless something is under way. -/
theorem allSettled_of_unlocked (hunlocked : s.locked pair = false)
    (hcalm : ¬UnderWay calls s pair) : AllSettled calls s pair := by
  intro u p hp hpair
  by_cases habsent : p.absent = true
  · exact .inl habsent
  · have hrecorded : s.Recorded pair p := by
      by_contra hnot
      exact hcalm (.inr ⟨u, p, hp, hpair, by simpa using habsent, hnot⟩)
    obtain ⟨taskId, hnamed, r, hr, hrpair, hrtask⟩ := hrecorded
    refine .inr ⟨taskId, hnamed, r, hr, hrpair, hrtask, ?_⟩
    unfold Office.locked at hunlocked
    rw [any_eq_false] at hunlocked
    have hrow := hunlocked r hr
    simpa [hrpair] using hrow

/-- The latest payment may be changed. -/
def Touched (l l' : List Payment) : Prop :=
  ∃ f : Payment → Payment, l' = l.modifyHead f ∧ ∀ p, l.head? = some p → Kept p (f p)

theorem Touched.refl (l : List Payment) : Touched l l := by
  refine ⟨id, ?_, fun p _ => .refl p⟩
  cases l <;> rfl

variable {l' : List Payment}

theorem Touched.mem (h : Touched l l') {p' : Payment} (hp : p' ∈ l') : ∃ p ∈ l, Kept p p' := by
  obtain ⟨f, rfl, hkept⟩ := h
  cases l with
  | nil => cases hp
  | cons q =>
    rcases mem_cons.mp hp with rfl | hrest
    · exact ⟨q, mem_cons_self, hkept q rfl⟩
    · exact ⟨p', mem_cons_of_mem _ hrest, .refl p'⟩

theorem Touched.length (h : Touched l l') : l'.length = l.length := by
  obtain ⟨f, rfl, -⟩ := h
  exact length_modifyHead

variable {f : Payment → Payment}

theorem getElem?_modifyHead {k : Nat} {q : Payment}
    (h : (l.modifyHead f).reverse[k]? = some q) : l.reverse[k]? = some q ∨
      ∃ p, l.head? = some p ∧ l.reverse[k]? = some p ∧ k = l.length - 1 ∧ q = f p := by
  cases l with
  | nil => exact .inl h
  | cons p rest =>
    rw [modifyHead_cons, reverse_cons] at h
    rw [reverse_cons]
    by_cases hk : k < rest.length
    · left
      rw [getElem?_append_left (by simpa using hk)] at h ⊢
      exact h
    · right
      rw [getElem?_append_right (by simpa using hk)] at h ⊢
      have hlast : k - rest.reverse.length = 0 := by
        by_contra hne
        rw [getElem?_eq_none (by simp only [length_singleton]; omega)] at h
        cases h
      rw [hlast] at h ⊢
      cases h
      rw [length_reverse] at hlast
      refine ⟨p, rfl, rfl, ?_, rfl⟩
      rw [length_cons]
      omega

/-! ## §4. The invariant and the guarantee -/

structure Orderly (s : Office) : Prop where
  /-- Where no check overlapped, at most one call may pay for a pair. -/
  alone : ¬s.overlapped → ∀ u v pair, s.passed u = some pair → s.passed v = some pair → u = v
  /-- Where the wallet misled no one, what landed is not called absent. -/
  honest : ¬s.misled → ∀ u k p, (s.adapter u).payments.reverse[k]? = some p →
    s.landed u k = true → p.absent = false
  counted : ∀ u k, s.landed u k = true → k < s.sent u

/-- What a call's step may do. -/
structure Guards (t : Nat) (s s' : Office) : Prop where
  others : ∀ u, u ≠ t → s'.adapter u = s.adapter u ∧ s'.passed u = s.passed u
  ledger : Grows s s'
  overlapped : s.overlapped → s'.overlapped
  payments : Touched (s.adapter t).payments (s'.adapter t).payments ∨
    ∃ p, (s'.adapter t).payments = p :: (s.adapter t).payments ∧
      (¬s.overlapped → s.passed t = some (pairOf calls t p) ∧ AllSettled calls s (pairOf calls t p))

def protocolOf : Protocol (office calls) where
  Inv := Orderly
  Guar := Guards calls
  Fresh _ _ := True
  refl t s := ⟨fun _ _ => ⟨rfl, rfl⟩, .of_eq rfl, id, .inl (.refl _)⟩

/-- The call may pay for the pair. -/
def Cleared (t : Nat) (pair : Pair) (s : Office) : Prop :=
  ¬s.overlapped → s.passed t = some pair ∧ AllSettled calls s pair

/-- The call's latest payment has no task yet. -/
def Latest (t : Nat) (s : Office) : Prop :=
  ∃ p rest, (s.adapter t).payments = p :: rest ∧ p.taskId = none

variable {calls}

theorem AllSettled.mono (h : AllSettled calls s pair) (hgrows : Grows s s')
    (hpayments : ∀ u, ∀ p' ∈ (s'.adapter u).payments, pairOf calls u p' = pair →
      ∃ p ∈ (s.adapter u).payments, Kept p p') : AllSettled calls s' pair := by
  intro u p' hp' hpair
  obtain ⟨p, hp, hkept⟩ := hpayments u p' hp' hpair
  have hsame : pairOf calls u p = pair := by
    rw [← hpair]
    unfold pairOf
    rw [hkept.worker]
  exact (h u p hp hsame).mono hgrows hkept

theorem stable_cleared (t : Nat) (pair : Pair) :
    (protocolOf calls).Stable t (Cleared calls t pair) := by
  rintro s s' hi hi' (⟨u, hu, hguar⟩ | henv) hcleared hcalm'
  · have hcalm : ¬s.overlapped := fun h => hcalm' (hguar.overlapped h)
    obtain ⟨hpassed, hall⟩ := hcleared hcalm
    refine ⟨(hguar.others t (Ne.symm hu)).2.trans hpassed, hall.mono hguar.ledger ?_⟩
    intro v p' hp' hpair
    by_cases hv : v = u
    · subst hv
      rcases hguar.payments with htouched | ⟨p, hcons, hnew⟩
      · exact htouched.mem hp'
      · rw [hcons] at hp'
        rcases mem_cons.mp hp' with rfl | hold
        · -- Another call that pays for the pair would have passed the check as well.
          have hother := (hnew hcalm).1
          rw [hpair] at hother
          exact absurd (hi.alone hcalm v t pair hother hpassed) hu
        · exact ⟨p', hold, .refl p'⟩
    · rw [(hguar.others v hv).1] at hp'
      exact ⟨p', hp', .refl p'⟩
  · cases henv with obtain ⟨hpassed, hall⟩ := hcleared hcalm'
    | lands => exact ⟨hpassed, hall.mono (.of_eq rfl) fun v p' hp' _ => ⟨p', hp', .refl p'⟩⟩
    | resolves taskId =>
      exact ⟨hpassed, hall.mono (grows_resolve s taskId) fun v p' hp' _ => ⟨p', hp', .refl p'⟩⟩
    | signs u a ha =>
      refine ⟨hpassed, hall.mono (.of_eq rfl) fun v p' hp' _ => ⟨p', ?_, .refl p'⟩⟩
      by_cases hv : v = u
      · subst hv
        change p' ∈ (update s.adapter v a v).payments at hp'
        rw [update_self, ha] at hp'
        exact hp'
      · change p' ∈ (update s.adapter u a v).payments at hp'
        rw [update_of_ne hv] at hp'
        exact hp'

theorem stable_latest (t : Nat) : (protocolOf calls).Stable t (Latest t) := by
  rintro s s' _ _ (⟨u, hu, hguar⟩ | henv) hlatest
  · unfold Latest
    rw [(hguar.others t (Ne.symm hu)).1]
    exact hlatest
  · cases henv with
    | lands | resolves => exact hlatest
    | signs u a ha =>
      show ∃ p rest, (update s.adapter u a t).payments = p :: rest ∧ p.taskId = none
      by_cases ht : t = u
      · subst ht
        rw [update_self, ha]
        exact hlatest
      · rw [update_of_ne ht]
        exact hlatest

/-! ## §5. Answers -/

theorem adapter_put (t u : Nat) (a : Adapter) (s : Office) :
    ((Office.desk t).put a s).adapter u = if u = t then a else s.adapter u := by
  show update s.adapter t a u = _
  exact update_apply ..

/-- A call's adapter moves: its latest payment is touched, or it pays for a pair it may pay for. -/
theorem Orderly.put {t : Nat} (h : Orderly s) (misled : Prop) (hmisled : s.misled → misled)
    (hhonest : ¬misled → ∀ k p, a.payments.reverse[k]? = some p → s.landed t k = true →
      p.absent = false)
    (hpayments : Touched (s.adapter t).payments a.payments ∨ ∃ p,
      a.payments = p :: (s.adapter t).payments ∧ Cleared calls t (pairOf calls t p) s) :
    Orderly { (Office.desk t).put a s with misled := misled } ∧
      Guards calls t s { (Office.desk t).put a s with misled := misled } := by
  have hadapter : ∀ u, ({ (Office.desk t).put a s with misled := misled } : Office).adapter u =
      if u = t then a else s.adapter u := fun u => adapter_put t u a s
  refine ⟨⟨h.alone, ?_, ?_⟩, ?_, .of_eq rfl, id, ?_⟩
  · intro htrue u k p hp hlanded
    rw [hadapter] at hp
    by_cases hu : u = t
    · subst hu
      rw [if_pos rfl] at hp
      exact hhonest htrue k p hp hlanded
    · rw [if_neg hu] at hp
      exact h.honest (fun hm => htrue (hmisled hm)) u k p hp hlanded
  · intro u k hlanded
    have hcount : k < (s.adapter u).payments.length := h.counted u k hlanded
    unfold Office.sent
    rw [hadapter]
    by_cases hu : u = t
    · subst hu
      rw [if_pos rfl]
      rcases hpayments with htouched | ⟨p, hcons, -⟩
      · exact htouched.length ▸ hcount
      · rw [hcons]
        exact Nat.lt_succ_of_lt hcount
    · rw [if_neg hu]
      exact hcount
  · intro u hu
    rw [hadapter, if_neg hu]
    exact ⟨rfl, rfl⟩
  · rw [hadapter, if_pos rfl]
    exact hpayments

theorem Orderly.touch {t : Nat} (h : Orderly s)
    (ha : a.payments = (s.adapter t).payments.modifyHead f)
    (hf : ∀ p, (s.adapter t).payments.head? = some p → Kept p (f p) ∧ (f p).absent = p.absent) :
    Orderly ((Office.desk t).put a s) ∧ Guards calls t s ((Office.desk t).put a s) := by
  refine h.put s.misled id ?_ (.inl ⟨f, ha, fun p hp => (hf p hp).1⟩)
  intro htrue k p hp hlanded
  rw [ha] at hp
  rcases getElem?_modifyHead hp with hold | ⟨q, hhead, hq, -, rfl⟩
  · exact h.honest htrue t k p hold hlanded
  · rw [(hf q hhead).2]
    exact h.honest htrue t k q hq hlanded

theorem Orderly.pay {t : Nat} (h : Orderly s) {p : Payment}
    (ha : a.payments = p :: (s.adapter t).payments)
    (hcleared : Cleared calls t (pairOf calls t p) s) :
    Orderly ((Office.desk t).put a s) ∧ Guards calls t s ((Office.desk t).put a s) := by
  refine h.put s.misled id ?_ (.inr ⟨p, ha, hcleared⟩)
  intro htrue k q hq hlanded
  have hcount : k < (s.adapter t).payments.length := h.counted t k hlanded
  rw [ha, reverse_cons, getElem?_append_left (by simpa using hcount)] at hq
  exact h.honest htrue t k q hq hlanded

theorem Orderly.absent (h : Orderly s) (t : Nat) :
    Orderly { (Office.desk t).put (s.adapter t).provedAbsent s with
        misled := s.misled ∨ s.landed t (s.sent t - 1) = true } ∧
      Guards calls t s { (Office.desk t).put (s.adapter t).provedAbsent s with
        misled := s.misled ∨ s.landed t (s.sent t - 1) = true } := by
  refine h.put _ .inl ?_ (.inl ⟨_, rfl, fun p _ => ⟨rfl, fun _ => rfl, fun _ hn => hn⟩⟩)
  intro htrue k p hp hlanded
  rcases getElem?_modifyHead hp with hold | ⟨q, -, -, hk, -⟩
  · exact h.honest (fun hm => htrue (.inl hm)) t k p hold hlanded
  · subst hk
    exact absurd (.inr hlanded) htrue

theorem Orderly.given_up {t : Nat} (h : Orderly s) (hadapter : s'.adapter = s.adapter)
    (hlanded : s'.landed = s.landed) (hpassed : s'.passed = update s.passed t none)
    (hghosts : s'.overlapped = s.overlapped ∧ s'.misled = s.misled) (hgrows : Grows s s') :
    Orderly s' ∧ Guards calls t s s' := by
  constructor
  · refine ⟨?_, ?_, ?_⟩
    · intro hcalm u v pair hu hv
      rw [hghosts.1] at hcalm
      rw [hpassed, update_apply] at hu hv
      by_cases hut : u = t
      · rw [if_pos hut] at hu
        cases hu
      · by_cases hvt : v = t
        · rw [if_pos hvt] at hv
          cases hv
        · rw [if_neg hut] at hu
          rw [if_neg hvt] at hv
          exact h.alone hcalm u v pair hu hv
    · intro htrue u k p hp hl
      rw [hghosts.2] at htrue
      rw [hadapter] at hp
      rw [hlanded] at hl
      exact h.honest htrue u k p hp hl
    · intro u k hl
      rw [hlanded] at hl
      unfold Office.sent
      rw [hadapter]
      exact h.counted u k hl
  · refine ⟨?_, hgrows, fun ho => hghosts.1 ▸ ho, .inl ?_⟩
    · intro u hu
      rw [hadapter, hpassed, update_of_ne hu]
      exact ⟨rfl, rfl⟩
    · rw [hadapter]
      exact .refl _

theorem Orderly.pass (h : Orderly s) (t : Nat) (pair : Pair) : Orderly { s.passes t (some pair) with
        overlapped := s.overlapped ∨ UnderWay calls s pair } ∧
      Guards calls t s { s.passes t (some pair) with
        overlapped := s.overlapped ∨ UnderWay calls s pair } := by
  constructor
  · refine ⟨?_, h.honest, h.counted⟩
    intro hcalm u v other hu hv
    change update s.passed t (some pair) u = some other at hu
    change update s.passed t (some pair) v = some other at hv
    have hcalm' : ¬s.overlapped := fun ho => hcalm (.inl ho)
    -- Nobody else held the pair, or the check would have overlapped.
    have hfree : ∀ w, s.passed w ≠ some pair := fun w hw => hcalm (.inr (.inl ⟨w, hw⟩))
    rw [update_apply] at hu hv
    by_cases hut : u = t
    · by_cases hvt : v = t
      · rw [hut, hvt]
      · rw [if_pos hut] at hu
        rw [if_neg hvt] at hv
        cases hu
        exact absurd hv (hfree v)
    · rw [if_neg hut] at hu
      split at hv
      · cases hv
        exact absurd hu (hfree u)
      · exact h.alone hcalm' u v other hu hv
  · refine ⟨?_, .of_eq rfl, .inl, .inl (.refl _)⟩
    intro u hu
    exact ⟨rfl, update_of_ne hu ..⟩

/-- A ledger write leaves everything else. -/
structure OnlyLedger (s s' : Office) : Prop where
  adapter : s'.adapter = s.adapter
  landed : s'.landed = s.landed
  passed : s'.passed = s.passed
  overlapped : s'.overlapped = s.overlapped
  misled : s'.misled = s.misled

theorem onlyLedger_record (s : Office) (pair : Pair) (taskId : String) :
    OnlyLedger s (s.record pair taskId) := by
  unfold Office.record
  split
  · exact ⟨rfl, rfl, rfl, rfl, rfl⟩
  · exact ⟨rfl, rfl, rfl, rfl, rfl⟩

theorem onlyLedger_wrote (s : Office) (op : LedgerWrite) (entry : SovereignPaidEntry) :
    OnlyLedger s (s.wrote op entry) := by
  cases op with
  | recordInFlight | recordUnretrieved => exact onlyLedger_record s _ _
  | resolve => exact ⟨rfl, rfl, rfl, rfl, rfl⟩

/-- **One answer**: the office stays orderly, and the step is within the call's guarantee. -/
theorem answer_step {t : Nat} (hi : Orderly s) (ha : answer calls s (t, q) x s') :
    Orderly s' ∧ Guards calls t s s' := by
  have hsame : s' = (Office.desk t).put (s.adapter t) s → Orderly s' ∧ Guards calls t s s' := by
    intro heq
    rw [heq, show (Office.desk t).put (s.adapter t) s = s from (Office.desk t).put_get s]
    exact ⟨hi, (protocolOf calls).refl t s⟩
  cases q with
  | ledgerCheck =>
    cases x with
    | error => exact hsame ha
    | ok verdict =>
      cases verdict with obtain ⟨-, rfl⟩ := ha
      | unlocked => exact hi.pass t _
      | locked => exact ⟨hi, (protocolOf calls).refl t _⟩
  | ledgerWrite op entry =>
    obtain rfl := ha
    have honly := onlyLedger_wrote s op entry
    refine hi.given_up honly.adapter honly.landed ?_ ⟨honly.overlapped, honly.misled⟩
      (grows_wrote s op entry)
    show update (s.wrote op entry).passed t none = _
    rw [honly.passed]
  | onDelegationFailure =>
    obtain rfl := ha
    exact hi.given_up rfl rfl rfl ⟨rfl, rfl⟩ (.of_eq rfl)
  | confirmSend =>
    cases x with
    | error => exact hsame ha
    | ok verdict =>
      cases verdict with
      | absent =>
        obtain rfl := ha
        exact hi.absent t
      | landed | pending | unknown => exact hsame ha
  | executeMcpTask =>
    cases x with
    | undelivered => exact hsame ha
    | receipt =>
      obtain rfl := ha
      exact hi.touch rfl fun p _ => ⟨⟨rfl, id, fun _ h => h⟩, rfl⟩
  | market | selectWorker | now | sleep | send | onTaskSubmitted => exact hsame ha

theorem answer_hears {t : Nat} (ha : answer calls s (t, q) x s') :
    s'.adapter t = Adapter.hears q x (s.adapter t) := by
  have hput : ∀ a : Adapter, s' = (Office.desk t).put a s → s'.adapter t = a := by
    intro a heq
    rw [heq, adapter_put, if_pos rfl]
  cases q with
  | ledgerCheck =>
    cases x with
    | error => exact hput _ ha
    | ok verdict =>
      cases verdict with
      | unlocked | locked =>
        obtain ⟨-, rfl⟩ := ha
        rfl
  | ledgerWrite op entry =>
    obtain rfl := ha
    show (s.wrote op entry).adapter t = s.adapter t
    rw [(onlyLedger_wrote s op entry).adapter]
  | onDelegationFailure =>
    obtain rfl := ha
    rfl
  | confirmSend =>
    cases x with
    | error => exact hput _ ha
    | ok verdict =>
      cases verdict with
      | absent =>
        obtain rfl := ha
        show ((Office.desk t).put (s.adapter t).provedAbsent s).adapter t = _
        rw [adapter_put, if_pos rfl]
        rfl
      | landed | pending | unknown => exact hput _ ha
  | market | selectWorker | now | sleep | send | onTaskSubmitted | executeMcpTask => exact hput _ ha

theorem hears_latest (h : ∃ p rest, a.payments = p :: rest ∧ p.taskId = none) :
    ∃ p rest, (Adapter.hears q x a).payments = p :: rest ∧ p.taskId = none := by
  obtain ⟨p, rest, hcons, hnone⟩ := h
  have hhead : ∀ f : Payment → Payment, (f p).taskId = none →
      ∃ p' rest', a.payments.modifyHead f = p' :: rest' ∧ p'.taskId = none := by
    intro f hf
    rw [hcons]
    exact ⟨f p, rest, rfl, hf⟩
  cases q with
  | confirmSend =>
    cases x with
    | error => exact ⟨p, rest, hcons, hnone⟩
    | ok verdict =>
      cases verdict with
      | absent => exact hhead (fun p => { p with absent := true }) hnone
      | landed | pending | unknown => exact ⟨p, rest, hcons, hnone⟩
  | executeMcpTask =>
    cases x with
    | undelivered => exact ⟨p, rest, hcons, hnone⟩
    | receipt r => exact hhead (fun p => { p with receipts := r :: p.receipts }) hnone
  | _ => exact ⟨p, rest, hcons, hnone⟩

/-! ## §6. The program -/

section

variable {ε α : Type} {t : Nat}

/-- The call's part of the program, run at its desk. -/
def Obeys (calls : Nat → Call) (t : Nat) (x : Delegation α) (L : Office → Prop)
    (Q : α → Office → Prop) (E : DelegationError → Office → Prop) : Prop :=
  (protocolOf calls).Ensures t (x.lodged (Office.desk t) t) L Q E

/-- Nothing is asked of the office, and nothing promised. -/
abbrev Any {β : Type} : β → Office → Prop := fun _ _ => True

variable {L : Office → Prop} {E : DelegationError → Office → Prop} {cfg : SovereignDelegationConfig}

theorem ask_any {q : Question} : Obeys calls t (Task.ask q) L Any E := by
  refine .lodged_ask (fun _ => .true) ?_
  intro s x s' hi _ ha
  obtain ⟨hi', hguar⟩ := answer_step hi ha
  exact ⟨hi', hguar, trivial⟩

theorem ask_latest {q : Question} :
    Obeys calls t (Task.ask q) (Latest t) (fun _ => Latest t) E := by
  refine .lodged_ask (fun _ => stable_latest t) ?_
  intro s x s' hi hl ha
  obtain ⟨hi', hguar⟩ := answer_step hi ha
  refine ⟨hi', hguar, ?_⟩
  unfold Latest
  rw [answer_hears ha]
  exact hears_latest hl

theorem ask_now_cleared : Obeys calls t (Task.ask Question.now) (Cleared calls t pair)
      (fun _ => Cleared calls t pair) E := by
  refine .lodged_ask (fun _ => stable_cleared t pair) ?_
  intro s x s' hi hl ha
  obtain ⟨hi', hguar⟩ := answer_step (q := .now) hi ha
  have hsame : s' = s := Eq.trans ha ((Office.desk t).put_get s)
  exact ⟨hi', hguar, hsame ▸ hl⟩

variable {Q : α → Office → Prop}

theorem obeys_throw {e : DelegationError} :
    Obeys calls t (throw e) L Q Any := fun _ _ _ => trivial

theorem obeys_pure {a : α} : Obeys calls t (pure a) L Any E := fun _ _ _ => trivial

theorem Obeys.bind {β : Type} {x : Delegation α} {g : α → Delegation β}
    {R : β → Office → Prop} (hx : Obeys calls t x L Q E) (hg : ∀ a, Obeys calls t (g a) (Q a) R E) :
    Obeys calls t (x >>= g) L R E :=
  Ensures.lodged_bind hx hg

theorem discoverCandidates_obeys (step : PlanStep) (excludeAgents : List String) :
    Obeys calls t (discoverCandidates step excludeAgents) (fun _ => True) Any Any := by
  refine ask_any.bind fun x => ?_
  cases x with
  | threw | refused => exact obeys_throw
  | candidates => exact obeys_pure

/-- **The check**: a call that passes it may pay for the pair. -/
theorem refuseIfAlreadyPaid_obeys (hledger : cfg.hasPaidLedger = true) (worker capability : String) :
    Obeys calls t (refuseIfAlreadyPaid cfg worker capability) (fun _ => True)
      (fun _ => Cleared calls t ⟨worker, capability⟩) Any := by
  unfold refuseIfAlreadyPaid
  rw [if_pos hledger]
  have hask : Obeys calls t (Task.ask (Question.ledgerCheck worker capability)) (fun _ => True)
      (fun x s => x = .ok .unlocked → Cleared calls t ⟨worker, capability⟩ s) Any := by
    refine .lodged_ask (fun x => ?_) ?_
    · intro s s' hi hi' hrely hl hx
      exact stable_cleared t _ s s' hi hi' hrely (hl hx)
    · intro s x s' hi _ ha
      obtain ⟨hi', hguar⟩ := answer_step hi ha
      refine ⟨hi', hguar, ?_⟩
      rintro rfl hcalm
      obtain ⟨hunlocked, rfl⟩ := ha
      have hclear : ¬UnderWay calls s ⟨worker, capability⟩ := fun hway => hcalm (.inr hway)
      refine ⟨update_self .., ?_⟩
      exact (allSettled_of_unlocked calls hunlocked hclear).mono (.of_eq rfl)
        fun u p' hp' _ => ⟨p', hp', .refl p'⟩
  refine hask.bind fun x => ?_
  cases x with
  | error => exact obeys_throw
  | ok verdict =>
    cases verdict with
    | unlocked => exact fun s _ hl => hl rfl
    | locked scope => cases scope <;> exact obeys_throw

theorem confirmLoop_obeys (query : ConfirmQuery) (deadline : Int) (looks : Nat) :
    Obeys calls t (confirmLoop query deadline looks) (Latest t) (fun _ => Latest t) Any := by
  induction looks with
  | zero => exact fun _ _ hl => hl
  | succ looks ih =>
    refine .bind (Ensures.lodged_read (Q := fun _ => Latest t)
      (fun _ => stable_latest t) fun _ _ hl => hl) fun exclude => ?_
    refine ask_latest.bind fun x => ?_
    cases x with
    | error => exact fun _ _ hl => hl
    | ok verdict =>
      cases verdict with
      | landed | absent | unknown => exact fun _ _ hl => hl
      | pending =>
        dsimp only
        split
        · exact fun _ _ hl => hl
        · exact ask_latest.bind fun _ => ask_latest.bind fun _ => ih

theorem afterFailedSend_obeys (cfg : SovereignDelegationConfig) (worker toAddress : String)
    (microAmount sentAtMs : Int) (sendMsg : String) :
    Obeys calls t (afterFailedSend cfg worker toAddress microAmount sentAtMs sendMsg) (Latest t)
      (fun _ => Latest t) Any := by
  refine ask_latest.bind fun failedAtMs => ?_
  have hconfirm : Obeys calls t
      (confirmPayment cfg ⟨toAddress, microAmount, sentAtMs, failedAtMs, sendMsg⟩) (Latest t)
      (fun _ => Latest t) Any := by
    unfold confirmPayment
    split
    · exact confirmLoop_obeys _ _ 3
    · exact fun _ _ hl => hl
  refine hconfirm.bind fun verdict => ?_
  cases verdict with
  | landed => exact fun _ _ hl => hl
  | absent | unknown => exact obeys_throw

/-- **Handing a payment to the wallet**, as the check allowed. -/
theorem paying_obeys (worker toAddress : String) (microAmount : Int) :
    Obeys calls t (Task.modify (Adapter.paying { worker, toAddress, microAmount }))
      (Cleared calls t ⟨worker, (calls t).step.capability⟩) (fun _ => Latest t) E := by
  refine .lodged_modify (fun _ => stable_latest t) ?_
  intro s hi hl
  obtain ⟨hi', hguar⟩ := hi.pay (p := { worker, toAddress, microAmount })
    (a := Adapter.paying { worker, toAddress, microAmount } (s.adapter t)) rfl hl
  refine ⟨hi', hguar, ?_⟩
  unfold Latest
  rw [adapter_put, if_pos rfl]
  exact ⟨_, _, rfl, rfl⟩

theorem pay_obeys (cfg : SovereignDelegationConfig) (worker toAddress : String) (costMicro : ℚ) :
    Obeys calls t (pay cfg worker toAddress costMicro)
      (Cleared calls t ⟨worker, (calls t).step.capability⟩) (fun _ => Latest t) Any := by
  unfold pay
  split
  · exact obeys_throw
  next microAmount _ =>
  refine ask_now_cleared.bind fun sentAtMs => ?_
  refine (paying_obeys worker toAddress microAmount).bind fun _ => ?_
  refine ask_latest.bind fun x => ?_
  cases x with
  | ok => exact fun _ _ hl => hl
  | error sendMsg =>
    refine (afterFailedSend_obeys cfg worker toAddress microAmount sentAtMs sendMsg).bind
      fun signature => ?_
    exact fun _ _ hl => hl

theorem paid_obeys (txHash taskId : String) :
    Obeys calls t (Task.modify (Adapter.paid txHash taskId)) (Latest t) Any E := by
  refine .lodged_modify (fun _ => .true) ?_
  rintro s hi ⟨p, rest, hcons, hnone⟩
  have htouch : Orderly ((Office.desk t).put (Adapter.paid txHash taskId (s.adapter t)) s) ∧
      Guards calls t s ((Office.desk t).put (Adapter.paid txHash taskId (s.adapter t)) s) := by
    refine hi.touch (f := fun p => { p with taskId := some taskId }) rfl fun q hq => ?_
    rw [hcons] at hq
    cases hq
    exact ⟨⟨rfl, id, fun x hx => by rw [hnone] at hx; cases hx⟩, rfl⟩
  exact ⟨htouch.1, htouch.2, trivial⟩

theorem ledgerWrite_obeys (cfg : SovereignDelegationConfig) (op : LedgerWrite)
    (entry : SovereignPaidEntry) : Obeys calls t (ledgerWrite cfg op entry) L Any E := by
  unfold ledgerWrite
  split
  · exact ask_any
  · exact obeys_pure

theorem present_obeys (cfg : SovereignDelegationConfig) (step : PlanStep) (timeoutMs : Int)
    (endpointUrl : String) (entry : SovereignPaidEntry) :
    Obeys calls t (present cfg step timeoutMs endpointUrl entry) L Any Any := by
  refine (ledgerWrite_obeys cfg _ entry).bind fun _ => ask_any.bind fun x => ?_
  cases x with
  | error => exact obeys_throw
  | ok _ =>
    refine ask_any.bind fun outcome => ?_
    cases outcome with
    | undelivered => exact (ledgerWrite_obeys cfg _ entry).bind fun _ => obeys_throw
    | receipt =>
      dsimp only
      unfold readReceipt
      split
      · exact obeys_throw
      · exact (ledgerWrite_obeys cfg _ entry).bind fun _ => obeys_throw
      · split
        · split
          · exact (ledgerWrite_obeys cfg _ entry).bind fun _ => obeys_throw
          · exact (ledgerWrite_obeys cfg _ entry).bind fun _ => obeys_throw
        · exact (ledgerWrite_obeys cfg _ entry).bind fun _ => obeys_pure

theorem hire_obeys (hledger : cfg.hasPaidLedger = true) (timeoutMs : Int)
    (candidate : DiscoveredCandidate) :
    Obeys calls t (hire cfg (calls t).step timeoutMs candidate) (fun _ => True) Any Any := by
  unfold hire
  dsimp only
  split
  · exact obeys_throw
  · split
    · exact obeys_throw
    · refine (refuseIfAlreadyPaid_obeys hledger _ _).bind fun _ => ?_
      refine (pay_obeys cfg _ _ _).bind fun r => ?_
      refine (paid_obeys _ _).bind fun _ => ?_
      exact ask_any.bind fun recordedAt => present_obeys cfg _ timeoutMs _ _

theorem attempt_obeys (hledger : cfg.hasPaidLedger = true) (timeoutMs : Int)
    (excludeAgents : List String) :
    Obeys calls t (attemptSovereignDelegation cfg (calls t).step timeoutMs excludeAgents)
      (fun _ => True) Any Any := by
  refine (discoverCandidates_obeys _ excludeAgents).bind fun candidates => ?_
  split
  · exact obeys_throw
  · refine ask_any.bind fun x => ?_
    cases x with
    | error => exact obeys_throw
    | ok =>
      dsimp only
      split
      · exact obeys_throw
      next candidate _ => exact hire_obeys hledger timeoutMs candidate

theorem attempts_obeys (hledger : cfg.hasPaidLedger = true) (timeoutMs : Int) (left : Nat) :
    ∀ (attempt : Nat) (excludeAgents : List String) (lastError : Option DelegationError),
      Obeys calls t (attempts cfg (calls t).step timeoutMs left attempt excludeAgents lastError)
        (fun _ => True) Any Any := by
  induction left with
  | zero =>
    intro attempt excludeAgents lastError
    exact obeys_throw
  | succ left ih =>
    intro attempt excludeAgents lastError
    refine Ensures.lodged_catching (attempt_obeys hledger timeoutMs excludeAgents) fun err => ?_
    refine ask_any.bind fun x => ?_
    cases x with
    | error => exact obeys_throw
    | ok _ =>
      dsimp only
      split
      · exact obeys_throw
      · split
        · exact obeys_throw
        · exact ih _ _ _

end

/-! ## §7. Every run -/

theorem Orderly.beside (h : Orderly s) (hb : Beside s s') : Orderly s' := by
  cases hb with
  | resolves => exact ⟨h.alone, h.honest, h.counted⟩
  | signs t a ha =>
    have hpayments : ∀ u, (((Office.desk t).put a s).adapter u).payments
        = (s.adapter u).payments := by
      intro u
      rw [adapter_put]
      split
      next hu =>
        subst hu
        exact ha
      · rfl
    refine ⟨h.alone, ?_, ?_⟩
    · intro htrue u k p hp hlanded
      rw [hpayments] at hp
      exact h.honest htrue u k p hp hlanded
    · intro u k hlanded
      unfold Office.sent
      rw [hpayments]
      exact h.counted u k hlanded
  | lands t k p hp =>
    have hread : ∀ u j, update s.landed t (update (s.landed t) k true) u j = true →
        (u = t ∧ j = k) ∨ s.landed u j = true := by
      intro u j hl
      rw [update_apply] at hl
      split at hl
      next hu =>
        rw [update_apply] at hl
        split at hl
        next hj => exact .inl ⟨hu, hj⟩
        · exact .inr (hu ▸ hl)
      · exact .inr hl
    refine ⟨h.alone, ?_, ?_⟩
    · intro htrue u j q hq hlanded
      rcases hread u j hlanded with ⟨rfl, rfl⟩ | hold
      · change (s.adapter u).payments.reverse[j]? = some q at hq
        rw [hp] at hq
        cases hq
        by_contra habsent
        exact htrue (.inr (by simpa using habsent))
      · exact h.honest (fun hm => htrue (.inl hm)) u j q hq hold
    · intro u j hlanded
      rcases hread u j hlanded with ⟨rfl, rfl⟩ | hold
      · have hlt := (List.getElem?_eq_some_iff.mp hp).1
        rwa [length_reverse] at hlt
      · exact h.counted u j hold

theorem verified_interlock : (protocolOf calls).Verified where
  init := by
    rintro s ⟨hempty, hcalm, htrue⟩
    refine ⟨⟨?_, ?_, ?_⟩, fun _ => trivial⟩
    · intro _ u v pair hu
      rw [(hempty u).2.1] at hu
      cases hu
    · intro _ u k p hp
      rw [(hempty u).1] at hp
      cases hp
    · intro u k hlanded
      rw [(hempty u).2.2 k] at hlanded
      cases hlanded
  env s s' hi he := ⟨hi.beside he, fun _ _ => trivial⟩
  crash := by
    rintro s _ hi rfl
    refine ⟨⟨?_, hi.honest, hi.counted⟩, fun _ _ => trivial⟩
    nofun
  fresh _ _ _ _ _ _ _ _ := trivial
  entry := by
    rintro t _ ⟨hledger, rfl⟩
    exact ⟨.true, Ensures.detach (attempts_obeys hledger _ _ 0 _ none)⟩

end

/-! ## §8. A payment nobody wrote down -/

def searchCall : Call := ⟨twoWorkerConfig, searchStep, 5000, []⟩

/-- An office before any call. -/
def emptyOffice : Office where
  adapter _ := ⟨[], []⟩
  ledger := []
  passed _ := none
  landed _ _ := false
  overlapped := False
  misled := False

/-- The payment of every such call. -/
def searchPayment : Payment := { worker := "a", toAddress := "wallet", microAmount := 500000 }

theorem walk_to_payment (t : Nat) {s : Office} (hunlocked : s.locked ⟨"a", "search"⟩ = false) :
    ∃ k s', Walk (office fun _ => searchCall) (callProg (fun _ => searchCall) t) s
        (.atomic (fun s => (Office.desk t).put ((s.adapter t).paying searchPayment) s) k) s' ∧
      s'.adapter = s.adapter ∧ s'.ledger = s.ledger ∧ s'.landed = s.landed ∧
      s'.misled = s.misled ∧
      s'.overlapped = (s.overlapped ∨ UnderWay (fun _ => searchCall) s ⟨"a", "search"⟩) := by
  have hquiet : s = (Office.desk t).put (s.adapter t) s := ((Office.desk t).put_get s).symm
  refine ⟨_, _, .await (x := MarketAnswer.candidates [onlineWorker "a", onlineWorker "b"]) hquiet
    (.await (x := Except.ok (some "a")) hquiet (.await (x := Except.ok .unlocked) ⟨hunlocked, rfl⟩
      (.await (x := (0 : Int)) ((Office.desk t).put_get _).symm .refl))), ?_⟩
  exact ⟨rfl, rfl, rfl, rfl, rfl⟩

end Motebit.Sovereign
