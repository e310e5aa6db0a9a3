/-
  Motebit.Roster.Head — THE ACTIVE MACHINES ARE THE HEAD KEY'S ALONE.

  An active machine shows its enrolments at the highest epoch there is, and at that epoch only
  retirements of that same epoch end them.  So what older keys sign, or nobody, changes no
  active machine; a chain may lose its oldest keys; and a new key under which nothing is signed
  supersedes what was active and leaves the rest.

  Main results: `mem_admitted`, `mem_active`, `stale_keys_change_nothing`,
  `suffix_and_rotation`.
-/

import Motebit.Roster.Order

namespace Motebit.Roster

open Motebit.Lib List HostRosterMachine

/-! ## §1. Epochs -/

variable {keyChain : List Text} {key : Text} {n : Nat}

theorem epochOf_eq_some (h : keyChain.Nodup) :
    epochOf keyChain key = some n ↔ keyChain[n]? = some key := by
  unfold epochOf
  constructor
  · intro hepoch
    split at hepoch
    · next hmem =>
      cases hepoch
      rw [getElem?_eq_getElem (idxOf_lt_length_iff.mpr hmem), getElem_idxOf]
    · cases hepoch
  · intro hget
    obtain ⟨hlt, rfl⟩ := List.getElem?_eq_some_iff.mp hget
    rw [if_pos (getElem_mem hlt), List.Nodup.idxOf_getElem h]

theorem epochOf_lt (h : epochOf keyChain key = some n) : n < keyChain.length := by
  unfold epochOf at h
  split at h
  · next hmem =>
    cases h
    exact idxOf_lt_length_iff.mpr hmem
  · cases h

theorem epochOf_current (h : keyChain.Nodup) :
    epochOf keyChain key = some (keyChain.length - 1) ↔ keyChain.getLast? = some key := by
  rw [epochOf_eq_some h, getLast?_eq_getElem?]

theorem epochOf_suffix {dropped : List Text} (h : (dropped ++ keyChain).Nodup) :
    epochOf keyChain key = some n ↔ epochOf (dropped ++ keyChain) key = some (n + dropped.length) := by
  have hsuffix : keyChain.Nodup := (nodup_append.mp h).2.1
  rw [epochOf_eq_some h, epochOf_eq_some hsuffix, getElem?_append_right (by omega)]
  rw [show n + dropped.length - dropped.length = n by omega]

theorem epochOf_append {newer : List Text} (h : (keyChain ++ newer).Nodup) (hold : key ∉ newer) :
    epochOf (keyChain ++ newer) key = epochOf keyChain key := by
  have hprefix : keyChain.Nodup := (nodup_append.mp h).1
  ext n
  rw [epochOf_eq_some h, epochOf_eq_some hprefix]
  constructor
  · intro hget
    by_cases hlt : n < keyChain.length
    · rwa [getElem?_append_left hlt] at hget
    · rw [getElem?_append_right (by omega)] at hget
      exact absurd (mem_of_getElem? hget) hold
  · intro hget
    have hlt : n < keyChain.length := (List.getElem?_eq_some_iff.mp hget).1
    rw [getElem?_append_left hlt]
    exact hget

/-! ## §2. What is admitted -/

section

variable {B : Type} (c : Crypto) (k : ArtifactKind B) (motebitId : Text)

/-- Some item states this body for the motebit, under a signature that verifies. -/
def Stated (items : List Json) (id : Text) (body : B) : Prop :=
  ∃ x ∈ items, ∃ a, signedBodyId c x = some id ∧ k.isShape x = some a ∧
    verifyBody c k a = true ∧ a.body = body ∧ k.motebit_id body = motebitId

def VerifiesUnder (key : Text) (x : Json) : Prop :=
  ∃ a, k.isShape x = some a ∧ k.public_key a.body = key ∧ verifyBody c k a = true

variable {c k motebitId} {items : List Json} {id : Text} {body : B}

variable {a : Admitted B}

theorem judge_ok {g : Group B} (h : judge c k motebitId keyChain g = .ok a) :
    ∃ sample, g.shaped.head? = some sample ∧ k.motebit_id sample.body = motebitId ∧
      epochOf keyChain (k.public_key sample.body) = some a.epoch ∧
      g.shaped.find? (verifyBody c k) = some a.artifact ∧ a.id = g.id := by
  unfold judge at h
  split at h
  · cases h
  next sample hsample =>
  split at h
  · cases h
  next hmotebit =>
  split at h
  · cases h
  next epoch hepoch =>
  split at h
  · cases h
  · next good hgood =>
    cases h
    exact ⟨sample, hsample, not_not.mp hmotebit, hepoch, hgood, rfl⟩

theorem judge_of {g : Group B} {sample good : Signed B} {epoch : Nat}
    (hsample : g.shaped.head? = some sample) (hmotebit : k.motebit_id sample.body = motebitId)
    (hepoch : epochOf keyChain (k.public_key sample.body) = some epoch)
    (hgood : g.shaped.find? (verifyBody c k) = some good) :
    judge c k motebitId keyChain g = .ok ⟨g.id, good, epoch⟩ := by
  unfold judge
  rw [hsample]
  dsimp only
  rw [if_neg (not_not.mpr hmotebit), hepoch, hgood]

theorem mem_admitItems : a ∈ (admitItems c k motebitId keyChain items).1 ↔
      ∃ g ∈ (groupItems c k items).2, judge c k motebitId keyChain g = .ok a := by
  unfold admitItems
  rw [mem_filterMap]
  constructor
  · rintro ⟨g, hg, hjudged⟩
    refine ⟨g, hg, ?_⟩
    cases hj : judge c k motebitId keyChain g with
    | error => rw [hj] at hjudged; cases hjudged
    | ok => rw [hj] at hjudged; cases hjudged; rfl
  · rintro ⟨g, hg, hjudged⟩
    exact ⟨g, hg, by rw [hjudged]; rfl⟩

/-- **What is admitted**: what some item states under a key of the chain. -/
theorem mem_admitted (hk : Lawful k) (hno : NoCollision c items) :
    (∃ a ∈ (admitItems c k motebitId keyChain items).1,
        a.id = id ∧ a.artifact.body = body ∧ a.epoch = n) ↔
      Stated c k motebitId items id body ∧ epochOf keyChain (k.public_key body) = some n := by
  have hspec := groupItems_spec hk items hno
  -- the copies of a group have one body
  have hbody : ∀ g ∈ (groupItems c k items).2, ∀ a ∈ g.shaped, ∀ b ∈ g.shaped, a.body = b.body := by
    intro g hg a ha b hb
    obtain ⟨u, hu, huid, hushape⟩ := (hspec.shaped g hg a).mp ha
    obtain ⟨v, hv, hvid, hvshape⟩ := (hspec.shaped g hg b).mp hb
    exact same_body hk hno hu hv huid hvid hushape hvshape
  constructor
  · rintro ⟨a, ha, rfl, rfl, rfl⟩
    obtain ⟨g, hg, hjudged⟩ := mem_admitItems.mp ha
    obtain ⟨sample, hsample, hmotebit, hepoch, hgood, hid⟩ := judge_ok hjudged
    have hgoodmem := mem_of_find?_eq_some hgood
    have hsame := hbody g hg _ (mem_of_head? hsample) _ hgoodmem
    obtain ⟨x, hx, hxid, hshape⟩ := (hspec.shaped g hg _).mp hgoodmem
    rw [hsame] at hmotebit hepoch
    refine ⟨⟨x, hx, a.artifact, ?_, hshape, find?_some hgood, rfl, hmotebit⟩, hepoch⟩
    rw [hid]
    exact hxid
  · rintro ⟨⟨x, hx, a, hxid, hshape, hverify, rfl, hmotebit⟩, hepoch⟩
    obtain ⟨g, hg, rfl⟩ := (hspec.ids id).mpr ⟨x, hx, hxid⟩
    have hmem : a ∈ g.shaped := (hspec.shaped g hg a).mpr ⟨x, hx, hxid, hshape⟩
    obtain ⟨sample, hsample⟩ : ∃ sample, g.shaped.head? = some sample := by
      obtain ⟨first, rest, hcons⟩ := exists_cons_of_ne_nil (ne_nil_of_mem hmem)
      exact ⟨first, by rw [hcons]; rfl⟩
    obtain ⟨good, hgood⟩ : ∃ good, g.shaped.find? (verifyBody c k) = some good := by
      cases hfind : g.shaped.find? (verifyBody c k) with
      | some good => exact ⟨good, rfl⟩
      | none => exact absurd hverify (find?_eq_none.mp hfind a hmem)
    have hsample' := hbody g hg _ (mem_of_head? hsample) _ hmem
    have hgood' := hbody g hg _ (mem_of_find?_eq_some hgood) _ hmem
    have hjudged : judge c k motebitId keyChain g = .ok ⟨g.id, good, n⟩ :=
      judge_of hsample (by rw [hsample']; exact hmotebit) (by rw [hsample']; exact hepoch) hgood
    exact ⟨_, mem_admitItems.mpr ⟨g, hg, hjudged⟩, rfl, hgood', rfl⟩

theorem epoch_lt (h : a ∈ (admitItems c k motebitId keyChain items).1) :
    a.epoch < keyChain.length := by
  obtain ⟨g, -, hjudged⟩ := mem_admitItems.mp h
  obtain ⟨sample, -, -, hepoch, -, -⟩ := judge_ok hjudged
  exact epochOf_lt hepoch

theorem groupFold_nodup (xs : List Json) (acc : Bool × List (Group B))
    (hacc : (acc.2.map Group.id).Nodup) :
    (((xs.foldl (fun acc item =>
      match signedBodyId c item with
      | none => (true, acc.2)
      | some id => (acc.1, groupItem k acc.2 id item)) acc).2).map Group.id).Nodup := by
  induction xs generalizing acc with
  | nil => exact hacc
  | cons x xs ih =>
    rw [foldl_cons]
    apply ih
    split
    · exact hacc
    · exact nodup_upsertBy hacc

theorem admitted_nodup : ((admitItems c k motebitId keyChain items).1.map Admitted.id).Nodup := by
  have hnodup : ((groupItems c k items).2.map Group.id).Nodup :=
    groupFold_nodup items (false, []) nodup_nil
  refine nodup_filterMap_key hnodup fun g a h => ?_
  cases hj : judge c k motebitId keyChain g with
  | error => rw [hj] at h; cases h
  | ok =>
    rw [hj] at h
    cases h
    obtain ⟨-, -, -, -, -, hid⟩ := judge_ok hj
    exact hid

end

/-! ## §3. The active machines -/

section

variable {enrolling : List (Admitted EnrollmentBody)} {retiring : List (Admitted RetirementBody)}
  {current : Nat} {e : Admitted EnrollmentBody}

theorem stands_current (hr : ∀ r ∈ retiring, r.epoch ≤ current) (he : e.epoch = current) :
    stands (endedAtEpoch retiring) e = !(retiring.any fun r =>
      r.epoch == current && r.artifact.body.enrollment_id == e.id) := by
  unfold stands
  rw [endedAtEpoch_find]
  have hnamed : ∀ n, n ∈ (retiring.filter fun r => r.artifact.body.enrollment_id == e.id).map
      Admitted.epoch ↔ ∃ r ∈ retiring, r.artifact.body.enrollment_id = e.id ∧ r.epoch = n := by
    intro n
    rw [mem_map]
    constructor
    · rintro ⟨r, hmem, rfl⟩
      obtain ⟨hmem, htarget⟩ := mem_filter.mp hmem
      exact ⟨r, hmem, eq_of_beq htarget, rfl⟩
    · rintro ⟨r, hmem, htarget, rfl⟩
      exact ⟨r, mem_filter.mpr ⟨hmem, beq_iff_eq.mpr htarget⟩, rfl⟩
  have hany : (retiring.any fun r => r.epoch == current && r.artifact.body.enrollment_id == e.id)
      = true ↔ ∃ r ∈ retiring, r.artifact.body.enrollment_id = e.id ∧ r.epoch = current := by
    rw [any_eq_true]
    constructor
    · rintro ⟨r, hmem, hboth⟩
      rw [Bool.and_eq_true, beq_iff_eq, beq_iff_eq] at hboth
      exact ⟨r, hmem, hboth.2, hboth.1⟩
    · rintro ⟨r, hmem, htarget, hepoch⟩
      exact ⟨r, hmem, by rw [htarget, hepoch, beq_self_eq_true, beq_self_eq_true]; rfl⟩
  generalize (retiring.filter fun r => r.artifact.body.enrollment_id == e.id).map Admitted.epoch
    = epochs at hnamed
  cases hmax : epochs.max? with
  | none =>
    rw [max?_eq_none_iff] at hmax
    subst hmax
    have hnone : ¬ ∃ r ∈ retiring, r.artifact.body.enrollment_id = e.id ∧ r.epoch = current :=
      fun hsome => absurd ((hnamed current).mpr hsome) not_mem_nil
    rw [← hany, Bool.not_eq_true] at hnone
    rw [hnone]
    rfl
  | some m =>
    obtain ⟨hmem, hle⟩ := max?_eq_some_iff.mp hmax
    obtain ⟨r, hr', htarget, hepoch⟩ := (hnamed m).mp hmem
    have hbound := hr r hr'
    show decide (m < e.epoch) = _
    rw [he, Bool.eq_iff_iff, decide_eq_true_eq, Bool.not_eq_true', ← Bool.not_eq_true, hany]
    constructor
    · rintro hlt ⟨q, hq, hqtarget, hqepoch⟩
      have hqle := hle current ((hnamed current).mpr ⟨q, hq, hqtarget, hqepoch⟩)
      omega
    · intro hno
      by_contra hge
      exact hno ⟨r, hr', htarget, by omega⟩

/-- The enrolments of a device at the current epoch that no retirement of that epoch names. -/
def standingAt (current : Nat) (retiring : List (Admitted RetirementBody))
    (enrolling : List (Admitted EnrollmentBody)) (device_id : Text) :
    List (Admitted EnrollmentBody) :=
  enrolling.filter fun e => e.artifact.body.device_id == device_id &&
    (e.epoch == current && !(retiring.any fun r =>
      r.epoch == current && r.artifact.body.enrollment_id == e.id))

def shownEntries (l : List (Admitted EnrollmentBody)) : List HostRosterEntry :=
  sortOn HostRosterEntry.enrollment_id (l.map fun e => ⟨e.id, e.artifact.body⟩)

theorem highestEpoch_current {all : List (Admitted EnrollmentBody)}
    (hle : ∀ e ∈ all, e.epoch ≤ current) (he : e ∈ all)
    (hepoch : e.epoch = current) : highestEpoch all = current := by
  have hmax : (all.map Admitted.epoch).max? = some current := by
    rw [max?_eq_some_iff]
    refine ⟨mem_map.mpr ⟨e, he, hepoch⟩, fun n hn => ?_⟩
    obtain ⟨q, hq, rfl⟩ := mem_map.mp hn
    exact hle q hq
  rw [highestEpoch_eq, hmax]
  rfl

/-- **What the active machines are**: each device with an enrolment that stands at the current
    epoch, shown with all of those. -/
theorem mem_active (he : ∀ e ∈ enrolling, e.epoch ≤ current)
    (hr : ∀ r ∈ retiring, r.epoch ≤ current) (m : HostRosterMachine) :
    m ∈ machinesOf .active ((byDevice enrolling).map (classify (endedAtEpoch retiring) current)) ↔
      standingAt current retiring enrolling m.device_id ≠ [] ∧
        m = ⟨m.device_id, current, true,
          shownEntries (standingAt current retiring enrolling m.device_id)⟩ := by
  -- of a device at the current epoch, what stands
  have hstanding : ∀ device_id,
      ((enrolling.filter fun e => e.artifact.body.device_id == device_id).filter fun e =>
        e.epoch == current).filter (stands (endedAtEpoch retiring))
          = standingAt current retiring enrolling device_id := by
    intro device_id
    rw [filter_filter, filter_filter]
    refine filter_congr fun e _ => ?_
    cases hepoch : e.epoch == current with
    | false => simp
    | true =>
      rw [stands_current hr (eq_of_beq hepoch)]
      simp [Bool.and_comm]
  unfold machinesOf
  rw [mem_sortOn, mem_map]
  constructor
  · rintro ⟨⟨status, machine⟩, hmem, rfl⟩
    obtain ⟨hmem, hstatus⟩ := mem_filter.mp hmem
    obtain ⟨d, hd, hclass⟩ := mem_map.mp hmem
    obtain ⟨hall, -⟩ := (mem_byDevice enrolling d).mp hd
    have hactive : status = .active := eq_of_beq hstatus
    unfold classify at hclass
    rw [Prod.mk.injEq] at hclass
    obtain ⟨hclass, rfl⟩ := hclass
    rw [hactive] at hclass
    -- only an epoch that is the current one makes a machine active
    have hH : highestEpoch d.all = current := by
      by_contra hne
      have hfalse : (highestEpoch d.all == current) = false := beq_false_of_ne hne
      rw [hfalse] at hclass
      split at hclass <;> cases hclass
    rw [hH, hall, hstanding] at hclass ⊢
    have hsome : (standingAt current retiring enrolling d.device_id).isEmpty = false := by
      by_contra hempty
      rw [if_pos (by simpa using hempty)] at hclass
      cases hclass
    refine ⟨fun hnil => ?_, ?_⟩
    · have hnil' : standingAt current retiring enrolling d.device_id = [] := hnil
      rw [hnil'] at hsome
      cases hsome
    · rw [hsome, beq_self_eq_true]
      rfl
  · rintro ⟨hne, hm⟩
    rw [hm]
    generalize m.device_id = device_id at hne hm ⊢
    have hmem : ∃ e, e ∈ standingAt current retiring enrolling device_id :=
      exists_mem_of_ne_nil _ hne
    obtain ⟨e, hmem⟩ := hmem
    have hparts := hmem
    obtain ⟨hin, htest⟩ := mem_filter.mp hparts
    rw [Bool.and_eq_true, Bool.and_eq_true, beq_iff_eq, beq_iff_eq] at htest
    have hown : e ∈ enrolling.filter fun e => e.artifact.body.device_id == device_id :=
      mem_filter.mpr ⟨hin, beq_iff_eq.mpr htest.1⟩
    have hH := highestEpoch_current (fun q hq => he q (mem_of_mem_filter hq)) hown htest.2.1
    refine ⟨(.active, _), mem_filter.mpr ⟨mem_map.mpr
      ⟨⟨device_id, enrolling.filter fun e => e.artifact.body.device_id == device_id⟩,
        (mem_byDevice enrolling _).mpr ⟨rfl, ne_nil_of_mem hown⟩, ?_⟩, rfl⟩, rfl⟩
    have hsome : (standingAt current retiring enrolling device_id).isEmpty = false := by
      rw [isEmpty_eq_false_iff]
      exact hne
    unfold classify
    dsimp only
    rw [hH, hstanding, hsome, beq_self_eq_true]
    rfl

end

/-! ## §4. Two runs -/

/-- Two lists of admitted entries have the same at an epoch each. -/
def SameAt {B : Type} (n n' : Nat) (l l' : List (Admitted B)) : Prop :=
  ∀ id body, (∃ a ∈ l, a.id = id ∧ a.artifact.body = body ∧ a.epoch = n) ↔
    ∃ a ∈ l', a.id = id ∧ a.artifact.body = body ∧ a.epoch = n'

section

variable {enrolling enrolling' : List (Admitted EnrollmentBody)}
  {retiring retiring' : List (Admitted RetirementBody)} {current current' : Nat}

theorem mem_standingAt {device_id id : Text} {body : EnrollmentBody} :
    (∃ e ∈ standingAt current retiring enrolling device_id, e.id = id ∧ e.artifact.body = body) ↔
      (∃ e ∈ enrolling, e.id = id ∧ e.artifact.body = body ∧ e.epoch = current) ∧
        body.device_id = device_id ∧
        ¬ ∃ target : RetirementBody, target.enrollment_id = id ∧
          ∃ rid, ∃ r ∈ retiring, r.id = rid ∧ r.artifact.body = target ∧ r.epoch = current := by
  have hended : ∀ e : Admitted EnrollmentBody,
      (retiring.any fun r => r.epoch == current && r.artifact.body.enrollment_id == e.id) = false ↔
        ¬ ∃ target : RetirementBody, target.enrollment_id = e.id ∧
          ∃ rid, ∃ r ∈ retiring, r.id = rid ∧ r.artifact.body = target ∧ r.epoch = current := by
    intro e
    rw [← Bool.not_eq_true, not_iff_not, any_eq_true]
    constructor
    · rintro ⟨r, hr, hboth⟩
      rw [Bool.and_eq_true, beq_iff_eq, beq_iff_eq] at hboth
      exact ⟨_, hboth.2, _, r, hr, rfl, rfl, hboth.1⟩
    · rintro ⟨_, htarget, _, r, hr, -, rfl, hepoch⟩
      exact ⟨r, hr, by rw [htarget, hepoch, beq_self_eq_true, beq_self_eq_true]; rfl⟩
  constructor
  · rintro ⟨e, he, rfl, rfl⟩
    obtain ⟨hin, htest⟩ := mem_filter.mp he
    rw [Bool.and_eq_true, Bool.and_eq_true, beq_iff_eq, beq_iff_eq, Bool.not_eq_true', hended]
      at htest
    exact ⟨⟨e, hin, rfl, rfl, htest.2.1⟩, htest.1, htest.2.2⟩
  · rintro ⟨⟨e, hin, rfl, rfl, hepoch⟩, hdevice, hnot⟩
    refine ⟨e, mem_filter.mpr ⟨hin, ?_⟩, rfl, rfl⟩
    rw [Bool.and_eq_true, Bool.and_eq_true, beq_iff_eq, beq_iff_eq, Bool.not_eq_true', hended]
    exact ⟨hdevice, hepoch, hnot⟩

theorem standingAt_same (hE : SameAt current current' enrolling enrolling')
    (hR : SameAt current current' retiring retiring') (device_id id : Text)
    (body : EnrollmentBody) :
    (∃ e ∈ standingAt current retiring enrolling device_id, e.id = id ∧ e.artifact.body = body) ↔
      ∃ e ∈ standingAt current' retiring' enrolling' device_id,
        e.id = id ∧ e.artifact.body = body := by
  rw [mem_standingAt, mem_standingAt, hE id body]
  have hnamed : (∃ target : RetirementBody, target.enrollment_id = id ∧
      ∃ rid, ∃ r ∈ retiring, r.id = rid ∧ r.artifact.body = target ∧ r.epoch = current) ↔
      ∃ target : RetirementBody, target.enrollment_id = id ∧
        ∃ rid, ∃ r ∈ retiring', r.id = rid ∧ r.artifact.body = target ∧ r.epoch = current' := by
    refine exists_congr fun target => and_congr_right fun _ => exists_congr fun rid => ?_
    exact hR rid target
  rw [hnamed]

theorem shownEntries_same (hid : (enrolling.map Admitted.id).Nodup)
    (hid' : (enrolling'.map Admitted.id).Nodup) (hE : SameAt current current' enrolling enrolling')
    (hR : SameAt current current' retiring retiring') (device_id : Text) :
    shownEntries (standingAt current retiring enrolling device_id)
      = shownEntries (standingAt current' retiring' enrolling' device_id) := by
  have hkeys : ∀ l : List (Admitted EnrollmentBody), (l.map Admitted.id).Nodup → ∀ p,
      (((l.filter p).map fun e => (⟨e.id, e.artifact.body⟩ : HostRosterEntry)).map
        HostRosterEntry.enrollment_id).Nodup := by
    intro l hl p
    rw [map_map]
    exact List.Nodup.sublist (filter_sublist.map _) hl
  refine sortOn_eq (hkeys _ hid _) (hkeys _ hid' _) fun entry => ?_
  have hmem : ∀ l : List (Admitted EnrollmentBody),
      entry ∈ l.map (fun e => (⟨e.id, e.artifact.body⟩ : HostRosterEntry)) ↔
        ∃ e ∈ l, e.id = entry.enrollment_id ∧ e.artifact.body = entry.body := by
    intro l
    rw [mem_map]
    refine exists_congr fun e => and_congr_right fun _ => ?_
    constructor
    · rintro rfl
      exact ⟨rfl, rfl⟩
    · rintro ⟨hid, hbody⟩
      rw [hid, hbody]
  rw [hmem, hmem]
  exact standingAt_same hE hR device_id _ _

theorem standingAt_nil (hE : SameAt current current' enrolling enrolling')
    (hR : SameAt current current' retiring retiring') (device_id : Text) :
    standingAt current retiring enrolling device_id = [] ↔
      standingAt current' retiring' enrolling' device_id = [] := by
  rw [eq_nil_iff_forall_not_mem, eq_nil_iff_forall_not_mem]
  constructor
  · intro hnone e he
    obtain ⟨q, hq, -, -⟩ := (standingAt_same hE hR device_id e.id e.artifact.body).mpr
      ⟨e, he, rfl, rfl⟩
    exact hnone q hq
  · intro hnone e he
    obtain ⟨q, hq, -, -⟩ := (standingAt_same hE hR device_id e.id e.artifact.body).mp
      ⟨e, he, rfl, rfl⟩
    exact hnone q hq

/-- **Two runs have the same active machines**, up to the number of the current epoch, where
    they have the same entries at it. -/
theorem active_same (hid : (enrolling.map Admitted.id).Nodup)
    (hid' : (enrolling'.map Admitted.id).Nodup)
    (he : ∀ e ∈ enrolling, e.epoch ≤ current) (he' : ∀ e ∈ enrolling', e.epoch ≤ current')
    (hr : ∀ r ∈ retiring, r.epoch ≤ current) (hr' : ∀ r ∈ retiring', r.epoch ≤ current')
    (hE : SameAt current current' enrolling enrolling')
    (hR : SameAt current current' retiring retiring') :
    machinesOf .active ((byDevice enrolling).map (classify (endedAtEpoch retiring) current))
      = (machinesOf .active ((byDevice enrolling').map
          (classify (endedAtEpoch retiring') current'))).map fun m => { m with epoch := current } := by
  have hmap := @sortOn_map HostRosterMachine Text _ HostRosterMachine device_id
    device_id (fun m : HostRosterMachine => { m with epoch := current }) (fun _ => rfl)
    ((((byDevice enrolling').map (classify (endedAtEpoch retiring') current')).filter fun m =>
      m.1 == .active).map Prod.snd)
  unfold machinesOf
  rw [← hmap]
  refine sortOn_eq (machinesOf_nodup .active) ?_ fun m => ?_
  · rw [map_map]
    exact machinesOf_nodup .active
  · have hleft := mem_active he hr m
    unfold machinesOf at hleft
    rw [mem_sortOn] at hleft
    rw [hleft, mem_map]
    have hshown := shownEntries_same hid hid' hE hR
    constructor
    · rintro ⟨hne, hm⟩
      refine ⟨{ m with epoch := current' }, ?_, ?_⟩
      · have hright := mem_active he' hr' { m with epoch := current' }
        unfold machinesOf at hright
        rw [mem_sortOn] at hright
        rw [hright]
        refine ⟨fun hnil => hne ((standingAt_nil hE hR _).mpr hnil), ?_⟩
        rw [← hshown, hm]
      · rw [hm]
    · rintro ⟨m', hm', rfl⟩
      have hright := mem_active he' hr' m'
      unfold machinesOf at hright
      rw [mem_sortOn] at hright
      obtain ⟨hne, heq⟩ := hright.mp hm'
      refine ⟨fun hnil => hne ((standingAt_nil hE hR _).mp hnil), ?_⟩
      rw [heq, ← hshown]

end

/-! ## §5. Usable inputs -/

/-- The input is usable: a motebit, and a chain of distinct well-formed keys. -/
structure Usable (motebitId : Option Text) (keyChain : Option (List Json)) (id : Text)
    (keys : List Text) : Prop where
  motebit : motebitId.filter (· ≠ []) = some id
  chain : ∃ chain, keyChain = some chain ∧ chain.isEmpty = false ∧
    (stringKeys chain).filter (fun keys => keys.all isHex32) = some keys
  nodup : keys.Nodup

variable {c : Crypto} {enrolled retired : List Json} {v : HostRosterVerdict}

theorem verifyHostRoster_usable {motebitId : Option Text} {chain : Option (List Json)} {id : Text}
    {keys : List Text} (h : Usable motebitId chain id keys) :
    verifyHostRoster c ⟨motebitId, chain, some enrolled, some retired⟩
      = .ok (reduce c id keys enrolled retired) := by
  obtain ⟨hmotebit, ⟨list, rfl, hne, hkeys⟩, hnodup⟩ := h
  unfold verifyHostRoster
  simp only [hmotebit, hne, hkeys, if_pos hnodup]
  rfl

theorem usable_of_ok {motebitId : Option Text} {chain : Option (List Json)}
    (h : verifyHostRoster c ⟨motebitId, chain, some enrolled, some retired⟩ = .ok v) :
    ∃ id keys, Usable motebitId chain id keys ∧ v = reduce c id keys enrolled retired := by
  unfold verifyHostRoster at h
  cases hmotebit : motebitId.filter (· ≠ []) with rw [hmotebit] at h
  | none => cases h
  | some id =>
    cases chain with
    | none => cases h
    | some list =>
      dsimp only at h
      split at h
      · cases h
      next hne =>
      cases hkeys : (stringKeys list).filter fun keys => keys.all isHex32 with rw [hkeys] at h
      | none => cases h
      | some keys =>
        dsimp only at h
        split at h
        · next hnodup =>
          cases h
          exact ⟨id, keys, ⟨hmotebit, ⟨list, rfl, by simpa using hne, hkeys⟩, hnodup⟩, rfl⟩
        · cases h

theorem stringKeys_strings (keys : List Text) : stringKeys (keys.map Json.string) = some keys := by
  unfold stringKeys
  induction keys with
  | nil => rfl
  | cons key keys ih =>
    rw [map_cons, mapM_cons, ih]
    rfl

theorem usable_strings {motebitId : Option Text} {id : Text} {keys keys' : List Text} :
    Usable motebitId (some (keys.map Json.string)) id keys' ↔
      keys' = keys ∧ motebitId.filter (· ≠ []) = some id ∧ keys ≠ [] ∧
        (∀ key ∈ keys, isHex32 key = true) ∧ keys.Nodup := by
  constructor
  · rintro ⟨hmotebit, ⟨chain, hchain, hne, hkeys⟩, hnodup⟩
    cases hchain
    rw [stringKeys_strings, Option.filter_eq_some_iff] at hkeys
    obtain ⟨hsame, hall⟩ := hkeys
    cases hsame
    refine ⟨rfl, hmotebit, ?_, all_eq_true.mp hall, hnodup⟩
    rintro rfl
    cases hne
  · rintro ⟨rfl, hmotebit, hne, hall, hnodup⟩
    refine ⟨hmotebit, ⟨_, rfl, ?_, ?_⟩, hnodup⟩
    · rw [isEmpty_eq_false_iff]
      simpa using hne
    · rw [stringKeys_strings, Option.filter_eq_some_iff]
      exact ⟨rfl, all_eq_true.mpr hall⟩

theorem epoch_le {B : Type} {k : ArtifactKind B} {id : Text} {keys : List Text} {items : List Json}
    {a : Admitted B} (h : a ∈ (admitItems c k id keys items).1) : a.epoch ≤ keys.length - 1 := by
  have hlt := epoch_lt h
  omega

theorem active_epoch {id : Text} {keys : List Text} {m : HostRosterMachine}
    (h : m ∈ (reduce c id keys enrolled retired).active) : m.epoch = keys.length - 1 := by
  have hm := (mem_active (fun e he => epoch_le he) (fun r hr => epoch_le hr) m).mp h
  rw [hm.2]

/-! ## §6. What older keys sign, or nobody -/

theorem sameAt_extra {B : Type} {k : ArtifactKind B} (hk : Lawful k) {id : Text}
    {keys : List Text} (hnodup : keys.Nodup) {items items' extra : List Json}
    (hno : NoCollision c items') (hperm : items'.Perm (items ++ extra))
    (hextra : ∀ x ∈ extra, ¬ VerifiesUnder c k (keys.getLast?.getD []) x) :
    SameAt (keys.length - 1) (keys.length - 1) (admitItems c k id keys items).1
      (admitItems c k id keys items').1 := by
  have hno' : NoCollision c items := fun ms ms' h h' =>
    hno ms ms' (hperm.mem_iff.mpr (mem_append_left _ h)) (hperm.mem_iff.mpr (mem_append_left _ h'))
  intro eid body
  rw [mem_admitted hk hno', mem_admitted hk hno]
  refine and_congr_left fun hepoch => ?_
  rw [epochOf_current hnodup] at hepoch
  constructor
  · rintro ⟨x, hx, hstated⟩
    exact ⟨x, hperm.mem_iff.mpr (mem_append_left _ hx), hstated⟩
  · rintro ⟨x, hx, a, hxid, hshape, hverify, hbody, hmotebit⟩
    rcases mem_append.mp (hperm.mem_iff.mp hx) with hx | hx
    · exact ⟨x, hx, a, hxid, hshape, hverify, hbody, hmotebit⟩
    · refine absurd ⟨a, hshape, ?_, hverify⟩ (hextra x hx)
      rw [hepoch, hbody]
      rfl

/-- **Stale keys change no active machine**: items added to a usable input, none of which
    verifies under the head key, leave the active list as it is. -/
theorem stale_keys_change_nothing {motebitId : Option Text} {chain : Option (List Json)}
    {enrolled' retired' extraEnrolled extraRetired : List Json}
    (hno : NoCollision c enrolled') (hnoRetired : NoCollision c retired')
    (hv : verifyHostRoster c ⟨motebitId, chain, some enrolled, some retired⟩ = .ok v)
    (henrolled : enrolled'.Perm (enrolled ++ extraEnrolled))
    (hretired : retired'.Perm (retired ++ extraRetired))
    (hextra : ∀ x ∈ extraEnrolled, ¬ VerifiesUnder c enrollments v.chain_head.2 x)
    (hextraRetired : ∀ x ∈ extraRetired, ¬ VerifiesUnder c retirements v.chain_head.2 x) :
    ∃ v', verifyHostRoster c ⟨motebitId, chain, some enrolled', some retired'⟩ = .ok v' ∧
      v'.active = v.active := by
  obtain ⟨id, keys, husable, rfl⟩ := usable_of_ok hv
  refine ⟨_, verifyHostRoster_usable husable, ?_⟩
  have hE := @sameAt_extra c _ _ enrollments_lawful id _ husable.nodup _ _ _ hno henrolled hextra
  have hR := @sameAt_extra c _ _ retirements_lawful id _ husable.nodup _ _ _ hnoRetired hretired
    hextraRetired
  have hactive := active_same admitted_nodup admitted_nodup (fun e he => epoch_le he)
    (fun e he => epoch_le he) (fun r hr => epoch_le hr) (fun r hr => epoch_le hr) hE hR
  have hkeep : (reduce c id keys enrolled' retired').active.map
      (fun m => { m with epoch := keys.length - 1 })
        = (reduce c id keys enrolled' retired').active.map fun m => m := by
    refine map_congr_left fun m hm => ?_
    have hepoch := active_epoch hm
    rw [← hepoch]
  rw [map_id'] at hkeep
  exact hkeep.symm.trans hactive.symm

theorem strangers_unsigned {B : Type} {k : ArtifactKind B}
    (hk : k.isShape (.object []) = none) (hnull : k.isShape .null = none) (key : Text) :
    ∀ x ∈ [Json.null, .object []], ¬ VerifiesUnder macMiniCrypto k key x := by
  rintro x hx ⟨a, hshape, -⟩
  rcases mem_pair.mp hx with rfl | rfl
  · rw [hnull] at hshape
    cases hshape
  · rw [hk] at hshape
    cases hshape

/-- One machine, with a null and an empty object thrown in on either side. -/
theorem stale_keys_change_nothing_macMini :
    ∃ v v', verifyHostRoster macMiniCrypto ⟨some (txt "m-1"), some [.string macMiniKey],
        some [macMini], some []⟩ = .ok v ∧
      verifyHostRoster macMiniCrypto ⟨some (txt "m-1"), some [.string macMiniKey],
        some [macMini, .null, .object []], some [.null, .object []]⟩ = .ok v' ∧
      v'.active = v.active := by
  have husable : Usable (some (txt "m-1")) (some ([macMiniKey].map Json.string)) (txt "m-1")
      [macMiniKey] := usable_strings.mpr ⟨rfl, rfl, by decide, by decide, by decide⟩
  have hv := @verifyHostRoster_usable macMiniCrypto [macMini] [] _ _ _ _ husable
  obtain ⟨v', hv', hactive⟩ := @stale_keys_change_nothing macMiniCrypto [macMini] [] _ _ _
    [macMini, .null, .object []] [.null, .object []] [.null, .object []] [.null, .object []]
    macMini_noCollision
    (fun ms ms' hms hms' hhash => macMini_noCollision ms ms' (mem_cons_of_mem _ hms)
      (mem_cons_of_mem _ hms') hhash)
    hv (List.Perm.refl _) (List.Perm.refl _) (strangers_unsigned rfl rfl _)
    (strangers_unsigned rfl rfl _)
  exact ⟨_, v', hv, hv', hactive⟩

/-! ## §7. Chains that grow and shrink -/

theorem sameAt_suffix {B : Type} {k : ArtifactKind B} {id : Text} {dropped keys : List Text}
    (hne : keys ≠ []) (hnodup : (dropped ++ keys).Nodup) (items : List Json) :
    SameAt ((dropped ++ keys).length - 1) (keys.length - 1)
      (admitItems c k id (dropped ++ keys) items).1 (admitItems c k id keys items).1 := by
  have hcurrent : (dropped ++ keys).length - 1 = keys.length - 1 + dropped.length := by
    have hpos := length_pos_iff.mpr hne
    rw [length_append]
    omega
  intro eid body
  constructor
  · rintro ⟨a, ha, rfl, rfl, hepoch⟩
    obtain ⟨g, hg, hjudged⟩ := mem_admitItems.mp ha
    obtain ⟨sample, hsample, hmotebit, hkey, hgood, hid⟩ := judge_ok hjudged
    rw [hepoch, hcurrent, ← epochOf_suffix hnodup] at hkey
    refine ⟨_, mem_admitItems.mpr ⟨g, hg, judge_of hsample hmotebit hkey hgood⟩, hid.symm, rfl, rfl⟩
  · rintro ⟨a, ha, rfl, rfl, hepoch⟩
    obtain ⟨g, hg, hjudged⟩ := mem_admitItems.mp ha
    obtain ⟨sample, hsample, hmotebit, hkey, hgood, hid⟩ := judge_ok hjudged
    rw [hepoch, epochOf_suffix hnodup, ← hcurrent] at hkey
    refine ⟨_, mem_admitItems.mpr ⟨g, hg, judge_of hsample hmotebit hkey hgood⟩, hid.symm, rfl, rfl⟩

/-- **A suffix of the chain has the same active machines**, their epochs shifted. -/
theorem active_suffix {motebitId : Option Text} {dropped keys : List Text} (hne : keys ≠ [])
    (hv : verifyHostRoster c ⟨motebitId, some ((dropped ++ keys).map Json.string), some enrolled,
      some retired⟩ = .ok v) :
    ∃ v', verifyHostRoster c ⟨motebitId, some (keys.map Json.string), some enrolled, some retired⟩
        = .ok v' ∧
      v.active = v'.active.map fun m => { m with epoch := m.epoch + dropped.length } := by
  obtain ⟨id, all, husable, rfl⟩ := usable_of_ok hv
  obtain ⟨rfl, hmotebit, -, hhex, hnodup⟩ := usable_strings.mp husable
  have hsuffix : Usable motebitId (some (keys.map Json.string)) id keys :=
    usable_strings.mpr ⟨rfl, hmotebit, hne, fun key hkey => hhex key (mem_append_right _ hkey),
      (nodup_append.mp hnodup).2.1⟩
  refine ⟨_, verifyHostRoster_usable hsuffix, ?_⟩
  have hactive := active_same admitted_nodup admitted_nodup (fun e he => epoch_le he)
    (fun e he => epoch_le he) (fun r hr => epoch_le hr) (fun r hr => epoch_le hr)
    (@sameAt_suffix c _ enrollments id _ _ hne hnodup enrolled)
    (@sameAt_suffix c _ retirements id _ _ hne hnodup retired)
  refine Eq.trans hactive (map_congr_left fun m hm => ?_)
  have hepoch : m.epoch = keys.length - 1 := active_epoch hm
  have hpos := length_pos_iff.mpr hne
  have hshift : (dropped ++ keys).length - 1 = m.epoch + dropped.length := by
    rw [length_append, hepoch]
    omega
  rw [hshift]

/-- A machine whose epoch is no longer the current one. -/
def HostRosterMachine.stale (m : HostRosterMachine) : HostRosterMachine :=
  { m with authenticated := false }

def rotated (m : MachineStatus × HostRosterMachine) : MachineStatus × HostRosterMachine :=
  (if m.1 = .retired then .retired else .superseded, m.2.stale)

variable {ended : List Tombstone}

theorem classify_rotated {current current' : Nat} {d : Device} (h : highestEpoch d.all < current') :
    classify ended current' d = rotated (classify ended current d) := by
  have hbelow : (highestEpoch d.all == current') = false := beq_false_of_ne (Nat.ne_of_lt h)
  unfold classify rotated stale
  dsimp only
  rw [hbelow]
  split
  · rfl
  · cases highestEpoch d.all == current <;> rfl

theorem stale_superseded {current : Nat} {d : Device}
    (h : (classify ended current d).1 = .superseded) :
    (classify ended current d).2.stale = (classify ended current d).2 := by
  unfold classify stale at *
  dsimp only at h ⊢
  split at h
  · cases h
  cases hcurrent : highestEpoch d.all == current with
  | true =>
    rw [hcurrent] at h
    cases h
  | false => rfl

theorem sameEntries_newer {B : Type} {k : ArtifactKind B} (hk : Lawful k) {id : Text}
    {keys newer : List Text} (hnodup : (keys ++ newer).Nodup) {items : List Json}
    (hno : NoCollision c items) (hnewer : ∀ key ∈ newer, ∀ x ∈ items, ¬ VerifiesUnder c k key x) :
    SameEntries (admitItems c k id keys items).1 (admitItems c k id (keys ++ newer) items).1 := by
  have hsame : ∀ eid body n, (∃ a ∈ (admitItems c k id keys items).1,
        a.id = eid ∧ a.artifact.body = body ∧ a.epoch = n) ↔
      ∃ a ∈ (admitItems c k id (keys ++ newer) items).1,
        a.id = eid ∧ a.artifact.body = body ∧ a.epoch = n := by
    intro eid body n
    rw [mem_admitted hk hno, mem_admitted hk hno]
    refine and_congr_right fun hstated => ?_
    obtain ⟨x, hx, a, -, hshape, hverify, rfl, -⟩ := hstated
    rw [epochOf_append hnodup fun hmem => hnewer _ hmem x hx ⟨a, hshape, rfl, hverify⟩]
  constructor
  · intro a ha
    obtain ⟨b, hb, hid, hbody, hepoch⟩ := (hsame _ _ _).mp ⟨a, ha, rfl, rfl, rfl⟩
    exact ⟨b, hb, hid.symm, hbody.symm, hepoch.symm⟩
  · intro b hb
    obtain ⟨a, ha, hid, hbody, hepoch⟩ := (hsame _ _ _).mpr ⟨b, hb, rfl, rfl, rfl⟩
    exact ⟨a, ha, hid, hbody, hepoch⟩

theorem machines_rotated {id : Text} {keys newer : List Text} (hne : newer ≠ [])
    (hnodup : (keys ++ newer).Nodup) (hno : NoCollision c enrolled)
    (hnoRetired : NoCollision c retired)
    (hE : ∀ key ∈ newer, ∀ x ∈ enrolled, ¬ VerifiesUnder c enrollments key x)
    (hR : ∀ key ∈ newer, ∀ x ∈ retired, ¬ VerifiesUnder c retirements key x)
    (status : MachineStatus) :
    machinesOf status ((byDevice (admitItems c enrollments id (keys ++ newer) enrolled).1).map
        (classify (endedAtEpoch (admitItems c retirements id (keys ++ newer) retired).1)
          ((keys ++ newer).length - 1)))
      = machinesOf status (((byDevice (admitItems c enrollments id keys enrolled).1).map
          (classify (endedAtEpoch (admitItems c retirements id keys retired).1)
            (keys.length - 1))).map rotated) := by
  have hentries := @sameEntries_newer c _ _ enrollments_lawful id _ _ hnodup _ hno hE
  have hretired := @sameEntries_newer c _ _ retirements_lawful id _ _ hnodup _ hnoRetired hR
  have hsame := @machinesOf_same _ _ _ _ ((keys ++ newer).length - 1) admitted_nodup
    admitted_nodup hentries.symm (fun a b hab => stands_same hretired.symm hab) status
  rw [hsame, map_map]
  congr 1
  refine map_congr_left fun d hd => classify_rotated ?_
  -- the epochs of the old chain lie below the new current one
  have hall := ((mem_byDevice _ d).mp hd)
  have hpos := length_pos_iff.mpr hne
  have hbound : ∀ e ∈ d.all, e.epoch < keys.length := by
    intro e he
    rw [hall.1] at he
    exact epoch_lt (mem_of_mem_filter he)
  rw [highestEpoch_eq]
  cases hmax : (d.all.map Admitted.epoch).max? with
  | none =>
    rw [max?_eq_none_iff, map_eq_nil_iff] at hmax
    exact absurd hmax hall.2
  | some =>
    obtain ⟨e, he, rfl⟩ := mem_map.mp (max?_eq_some_iff.mp hmax).1
    have hlt := hbound e he
    rw [length_append]
    show e.epoch < keys.length + newer.length - 1
    omega

/-- **A rotation supersedes what was active and leaves the rest**: after any number of new keys
    under which nothing is signed, no machine is active, the retired ones are the same, and the
    superseded ones are those that were and those that were active. -/
theorem rotation_supersedes {motebitId : Option Text} {keys newer : List Text} (hne : newer ≠ [])
    (hnodup : (keys ++ newer).Nodup) (hhex : ∀ key ∈ newer, isHex32 key = true)
    (hno : NoCollision c enrolled) (hnoRetired : NoCollision c retired)
    (hE : ∀ key ∈ newer, ∀ x ∈ enrolled, ¬ VerifiesUnder c enrollments key x)
    (hR : ∀ key ∈ newer, ∀ x ∈ retired, ¬ VerifiesUnder c retirements key x)
    (hv : verifyHostRoster c ⟨motebitId, some (keys.map Json.string), some enrolled, some retired⟩
      = .ok v) :
    ∃ v', verifyHostRoster c ⟨motebitId, some ((keys ++ newer).map Json.string), some enrolled,
        some retired⟩ = .ok v' ∧
      v'.active = [] ∧ v'.retired = v.retired.map stale ∧
      v'.superseded.Perm (v.active.map stale ++ v.superseded) := by
  obtain ⟨id, all, husable, rfl⟩ := usable_of_ok hv
  obtain ⟨rfl, hmotebit, hkeys, hold, -⟩ := usable_strings.mp husable
  have hgrown : Usable motebitId (some ((all ++ newer).map Json.string)) id (all ++ newer) := by
    refine usable_strings.mpr ⟨rfl, hmotebit, ?_, fun key hkey => ?_, hnodup⟩
    · exact append_ne_nil_of_left_ne_nil hkeys newer
    · rcases mem_append.mp hkey with hkey | hkey
      · exact hold key hkey
      · exact hhex key hkey
  refine ⟨_, verifyHostRoster_usable hgrown, ?_⟩
  have hmachines := @machines_rotated c _ _ id _ _ hne hnodup hno hnoRetired hE hR
  unfold reduce
  dsimp only
  rw [hmachines .active, hmachines .retired, hmachines .superseded]
  generalize hms : (byDevice (admitItems c enrollments id all enrolled).1).map
    (classify (endedAtEpoch (admitItems c retirements id all retired).1) (all.length - 1)) = ms
  have hstatus : ∀ status, (ms.map rotated).filter (fun m => m.1 == status)
      = (ms.filter fun m => (rotated m).1 == status).map rotated := by
    intro status
    rw [filter_map]
    rfl
  refine ⟨?_, ?_, ?_⟩
  · unfold machinesOf
    rw [hstatus]
    have hnone : (ms.filter fun m => (rotated m).1 == .active) = [] := by
      rw [filter_eq_nil_iff]
      intro m _
      unfold rotated
      split <;> exact Bool.false_ne_true
    rw [hnone]
    rfl
  · have hkept : (ms.filter fun m => (rotated m).1 == .retired) = ms.filter fun m =>
        m.1 == .retired := by
      refine filter_congr fun m _ => ?_
      unfold rotated
      cases m.1 <;> rfl
    unfold machinesOf
    rw [hstatus, hkept, map_map]
    have hsort := @sortOn_map HostRosterMachine Text _ HostRosterMachine device_id
      device_id stale (fun _ => rfl)
      ((ms.filter fun m => m.1 == .retired).map Prod.snd)
    rwa [map_map] at hsort
  · have hparts : (ms.filter fun m => (rotated m).1 == .superseded).Perm
        ((ms.filter fun m => m.1 == .active) ++ ms.filter fun m => m.1 == .superseded) := by
      refine (filter_append_perm (fun m => m.1 == .active) _).symm.trans ?_
      rw [filter_filter, filter_filter]
      refine List.Perm.append (List.Perm.of_eq (filter_congr fun m _ => ?_))
        (List.Perm.of_eq (filter_congr fun m _ => ?_))
      · unfold rotated
        cases m.1 <;> rfl
      · unfold rotated
        cases m.1 <;> rfl
    have hsuperseded : (ms.filter fun m => m.1 == .superseded).map (fun m => m.2.stale)
        = (ms.filter fun m => m.1 == .superseded).map Prod.snd := by
      refine map_congr_left fun m hm => ?_
      obtain ⟨hmem, hm⟩ := mem_filter.mp hm
      rw [← hms] at hmem
      obtain ⟨d, -, rfl⟩ := mem_map.mp hmem
      exact stale_superseded (eq_of_beq hm)
    unfold machinesOf
    rw [hstatus, map_map]
    refine (sortOn_perm _ _).trans ((hparts.map _).trans ?_)
    rw [map_append]
    refine List.Perm.append ?_ ?_
    · rw [show (ms.filter fun m => m.1 == .active).map (Prod.snd ∘ rotated)
        = ((ms.filter fun m => m.1 == .active).map Prod.snd).map stale by
          rw [map_map]; rfl]
      exact ((sortOn_perm _ _).map _).symm
    · refine List.Perm.trans (List.Perm.of_eq hsuperseded) (sortOn_perm _ _).symm

/-- **Suffixes and rotations**: of a usable chain, every suffix has the same active machines, and
    new keys under which nothing is signed supersede them and leave the rest. -/
theorem suffix_and_rotation {motebitId : Option Text} {keys : List Text}
    (hv : verifyHostRoster c ⟨motebitId, some (keys.map Json.string), some enrolled, some retired⟩
      = .ok v) :
    (∀ dropped kept, keys = dropped ++ kept → kept ≠ [] →
      ∃ v', verifyHostRoster c ⟨motebitId, some (kept.map Json.string), some enrolled, some retired⟩
          = .ok v' ∧
        v.active = v'.active.map fun m => { m with epoch := m.epoch + dropped.length }) ∧
    (∀ newer, newer ≠ [] → (keys ++ newer).Nodup → (∀ key ∈ newer, isHex32 key = true) →
      NoCollision c enrolled → NoCollision c retired →
      (∀ key ∈ newer, ∀ x ∈ enrolled, ¬ VerifiesUnder c enrollments key x) →
      (∀ key ∈ newer, ∀ x ∈ retired, ¬ VerifiesUnder c retirements key x) →
      ∃ v', verifyHostRoster c ⟨motebitId, some ((keys ++ newer).map Json.string), some enrolled,
          some retired⟩ = .ok v' ∧
        v'.active = [] ∧ v'.retired = v.retired.map HostRosterMachine.stale ∧
        v'.superseded.Perm (v.active.map HostRosterMachine.stale ++ v.superseded)) := by
  constructor
  · rintro dropped kept rfl hne
    exact active_suffix hne hv
  · intro newer hne hnodup hhex hno hnoRetired hE hR
    exact rotation_supersedes hne hnodup hhex hno hnoRetired hE hR hv

/-- Two other keys. -/
def oldKey : Text :=
  txt "11a107bff3ce10be1d70dd18e74bc09967e4d6309ba50d5f1ddc8664125531b8"

def nextKey : Text :=
  txt "22a107bff3ce10be1d70dd18e74bc09967e4d6309ba50d5f1ddc8664125531b8"

/-- A chain of two keys, its head alone, and a rotation of it. -/
theorem suffix_and_rotation_macMini :
    ∃ v v' v'', verifyHostRoster macMiniCrypto ⟨some (txt "m-1"),
        some ([oldKey, macMiniKey].map Json.string), some [macMini], some []⟩ = .ok v ∧
      verifyHostRoster macMiniCrypto ⟨some (txt "m-1"), some ([macMiniKey].map Json.string),
        some [macMini], some []⟩ = .ok v' ∧
      verifyHostRoster macMiniCrypto ⟨some (txt "m-1"),
        some ([oldKey, macMiniKey, nextKey].map Json.string), some [macMini], some []⟩ = .ok v'' ∧
      v.active = v'.active.map (fun m => { m with epoch := m.epoch + 1 }) ∧ v''.active = [] := by
  have husable : Usable (some (txt "m-1")) (some ([oldKey, macMiniKey].map Json.string)) (txt "m-1")
      [oldKey, macMiniKey] := usable_strings.mpr ⟨rfl, rfl, by decide, by decide, by decide⟩
  have hv := @verifyHostRoster_usable macMiniCrypto [macMini] [] _ _ _ _ husable
  obtain ⟨hsuffix, hrotation⟩ := suffix_and_rotation hv
  obtain ⟨v', hv', hshift⟩ := hsuffix [oldKey] [macMiniKey] rfl (by decide)
  obtain ⟨v'', hv'', hnone, -, -⟩ := hrotation [nextKey] (by decide) (by decide) (by decide)
    (fun ms ms' hms hms' hhash => macMini_noCollision ms ms'
      (mem_cons.mpr (.inl (mem_singleton.mp hms)))
      (mem_cons.mpr (.inl (mem_singleton.mp hms'))) hhash)
    nofun
    (by
      rintro key hkey x hx ⟨a, hshape, hpublic, -⟩
      rw [mem_singleton.mp hkey] at hpublic
      rw [mem_singleton.mp hx] at hshape
      have hother : ((enrollments.isShape macMini).map fun a => enrollments.public_key a.body)
          ≠ some nextKey := by decide +kernel
      rw [hshape] at hother
      exact hother (congrArg some hpublic))
    nofun
  exact ⟨_, v', v'', hv, hv', hv'', hshift, hnone⟩

end Motebit.Roster
