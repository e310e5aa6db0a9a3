/-
  Motebit.Roster.Links — THE LINKS OF A KEY, whatever the order of the records.

  A candidate is told apart by its canonical text, and the text determines the candidate.  So a
  bucket holds the well-formed records of its key, the memo changes no verdict, and the links of
  a key are the strongest of each pair, the least text first: a function of which well-formed
  records there are.

  Main results: `canonical_injective`, `mem_linksOf`, `resolveCall_eq`, `resolveCall_same`.
-/

import Motebit.Roster.KeyChain
import Motebit.Roster.Order

namespace Motebit.Roster

open Motebit.Lib List
open Motebit.Audit (JsValue)
open KeySuccessionRecord

/-! ## §1. One text, one record -/

theorem same_member {ms ms' : List (Text × Json)} (h : (Json.object ms).Same (.object ms'))
    (key : String) : ((member ms key).map Json.sorted).map Json.unsigned
      = ((member ms' key).map Json.sorted).map Json.unsigned := by
  have hread : ∀ ms : List (Text × Json), ((member ms key).map Json.sorted).map Json.unsigned
      = (((sortByKey (ms.map fun m => (m.1, m.2.sorted))).map fun m => (m.1, m.2.unsigned)).find?
          fun m => m.1 == txt key).map Prod.snd := by
    intro ms
    rw [← member_sorted]
    unfold member
    rw [find?_map, Option.map_map, Option.map_map]
    rfl
  unfold Json.Same at h
  rw [sorted_object, sorted_object, Json.unsigned, Json.unsigned, Json.unsignedMembers_eq,
    Json.unsignedMembers_eq] at h
  rw [hread, hread, Json.object.inj h]

theorem unsigned_safe {n : JsonNum} (h : isSafeInteger n = true) : n.unsigned = n := by
  cases n with
  | negZero => cases h
  | decimal => rfl

theorem member_record (r : KeySuccessionRecord) : ∃ ms, r.toJson = .object ms ∧
    member ms "old_public_key" = some (.string r.old_public_key) ∧
    member ms "new_public_key" = some (.string r.new_public_key) ∧
    member ms "timestamp" = some (.number r.timestamp) ∧
    member ms "reason" = r.reason.map Json.string ∧
    member ms "new_key_signature" = some (.string r.new_key_signature) ∧
    (match r.authority with
      | .old_key_signature signature =>
        member ms "old_key_signature" = some (.string signature) ∧ member ms "recovery" = none
      | .guardian_signature signature =>
        member ms "guardian_signature" = some (.string signature) ∧
          member ms "recovery" = some (.bool true)) := by
  refine ⟨_, rfl, ?_⟩
  unfold reasonMember
  cases r.authority with
  | old_key_signature | guardian_signature =>
    cases r.reason with
    | none | some => exact ⟨rfl, rfl, rfl, rfl, rfl, rfl, rfl⟩

/-- **One text, one record.** -/
theorem canonical_injective {r r' : KeySuccessionRecord} (h : r.canonical = r'.canonical) :
    r = r' := by
  have hsame : r.toJson.Same r'.toJson := Json.canonical_inj (toText_injective h)
  obtain ⟨ms, hms, hold, hnew, htime, hreason, hsig, hauthority⟩ := member_record r
  obtain ⟨ms', hms', hold', hnew', htime', hreason', hsig', hauthority'⟩ := member_record r'
  rw [hms, hms'] at hsame
  have hmember := same_member hsame
  have h1 := hmember "old_public_key"
  have h2 := hmember "new_public_key"
  have h3 := hmember "timestamp"
  have h4 := hmember "reason"
  have h5 := hmember "new_key_signature"
  have h6 := hmember "recovery"
  have h7 := hmember "old_key_signature"
  have h8 := hmember "guardian_signature"
  rw [hold, hold'] at h1
  rw [hnew, hnew'] at h2
  rw [htime, htime'] at h3
  rw [hreason, hreason'] at h4
  rw [hsig, hsig'] at h5
  obtain ⟨old, new, time, reason, sig, authority, ho, hn, hs⟩ := r
  obtain ⟨old', new', time', reason', sig', authority', ho', hn', hs'⟩ := r'
  have htimes : time.unsigned = time'.unsigned := Json.number.inj (Option.some.inj h3)
  rw [unsigned_safe hs, unsigned_safe hs'] at htimes
  have hreasons : reason = reason' := by
    cases reason <;> cases reason' <;> cases h4 <;> rfl
  have hauthorities : authority = authority' := by
    cases authority with
    | old_key_signature =>
      cases authority' with
      | old_key_signature =>
        rw [hauthority.1, hauthority'.1] at h7
        cases h7
        rfl
      | guardian_signature =>
        rw [hauthority.2, hauthority'.2] at h6
        cases h6
    | guardian_signature =>
      cases authority' with
      | old_key_signature =>
        rw [hauthority.2, hauthority'.2] at h6
        cases h6
      | guardian_signature =>
        rw [hauthority.1, hauthority'.1] at h8
        cases h8
        rfl
  cases Json.string.inj (Option.some.inj h1)
  cases Json.string.inj (Option.some.inj h2)
  cases Json.string.inj (Option.some.inj h5)
  subst htimes hreasons hauthorities
  rfl

/-! ## §2. What a bucket holds -/

variable {records records' : List JsValue} {side other : KeySuccessionRecord → Text} {key : Text}
  {r : KeySuccessionRecord}

/-- The records hold a copy of this one. -/
def Holds (records : List JsValue) (r : KeySuccessionRecord) : Prop :=
  ∃ value ∈ records, normalize value = some r

theorem holds_append {extra : List JsValue} :
    Holds (records ++ extra) r ↔ Holds records r ∨ Holds extra r := by
  constructor
  · rintro ⟨value, hvalue, hr⟩
    rcases mem_append.mp hvalue with hvalue | hvalue
    · exact .inl ⟨value, hvalue, hr⟩
    · exact .inr ⟨value, hvalue, hr⟩
  · rintro (⟨value, hvalue, hr⟩ | ⟨value, hvalue, hr⟩)
    · exact ⟨value, mem_append_left _ hvalue, hr⟩
    · exact ⟨value, mem_append_right _ hvalue, hr⟩

theorem mem_upsert_candidate {t : List KeySuccessionRecord} {a : KeySuccessionRecord} :
    a ∈ upsertBy canonical r t ↔ a = r ∨ a ∈ t := by
  rw [mem_upsertBy]
  constructor
  · rintro (rfl | ⟨ha, -⟩)
    · exact .inl rfl
    · exact .inr ha
  · rintro (rfl | ha)
    · exact .inl rfl
    · by_cases hsame : a.canonical = r.canonical
      · exact .inl (canonical_injective hsame)
      · exact .inr ⟨ha, hsame⟩

/-- **A bucket holds the well-formed records of its key.** -/
theorem mem_bucketOf :
    r ∈ bucketOf (indexBy side records) key ↔ Holds records r ∧ side r = key := by
  have hfind := find?_foldl_upsertBy Bucket.key side (fun acc r => ⟨side r, upsertBy canonical r
      ((acc.map Bucket.candidates).getD [])⟩) (fun _ _ => rfl) (records.filterMap normalize) key
  have hbucket : bucketOf (indexBy side records) key
      = ((((records.filterMap normalize).filter fun r => side r == key).foldl
          (fun acc r => some (⟨side r, upsertBy canonical r
            ((acc.map Bucket.candidates).getD [])⟩ : Bucket)) none).map
              Bucket.candidates).getD [] := by
    rw [← hfind]
    rfl
  have hfold : ∀ l : List KeySuccessionRecord, r ∈ (((l.foldl
      (fun acc r => some (⟨side r, upsertBy canonical r
        ((acc.map Bucket.candidates).getD [])⟩ : Bucket)) none).map
          Bucket.candidates).getD []) ↔ r ∈ l := by
    intro l
    induction l using List.reverseRecOn with
    | nil => exact Iff.rfl
    | append_singleton l a ih =>
      rw [foldl_append, foldl_cons, foldl_nil, Option.map_some, Option.getD_some,
        mem_upsert_candidate, ih, mem_append, mem_singleton]
      exact or_comm
  rw [hbucket, hfold, mem_filter, mem_filterMap, beq_iff_eq]
  rfl

/-! ## §3. The links of a key -/

variable {c : ChainCrypto} {guardianKey : Option Text}

/-- The links of a key, read without a memo. -/
def linksOf (c : ChainCrypto) (guardianKey : Option Text) (records : List JsValue)
    (side other : KeySuccessionRecord → Text) (key : Text) : List Link :=
  (links (m := Id) (verdict c guardianKey) (indexBy side records) key other).run

/-- A verified link that some record of the key makes. -/
structure Made (c : ChainCrypto) (guardianKey : Option Text) (records : List JsValue)
    (side other : KeySuccessionRecord → Text) (key : Text) (l : Link) : Prop where
  holds : Holds records l.record
  side_eq : side l.record = key
  other_eq : l.other = other l.record
  verdict_eq : verdict c guardianKey l.record = some l.kind

theorem linksOf_eq (key : Text) : linksOf c guardianKey records side other key
    = sortOn Link.other (keepBest Link.other Link.score
        ((bucketOf (indexBy side records) key).filterMap fun r =>
          (verdict c guardianKey r).map fun kind => ⟨other r, kind, r⟩)) := by
  unfold linksOf links keepBest
  show sortOn Link.other _ = _
  congr 1
  generalize bucketOf (indexBy side records) key = bucket
  generalize ([] : List Link) = out
  induction bucket generalizing out with
  | nil => rfl
  | cons r bucket ih =>
    rw [foldlM_cons, filterMap_cons]
    cases hverdict : verdict c guardianKey r with
    | none =>
      rw [Option.map_none]
      rw [← ih]
      rfl
    | some =>
      rw [Option.map_some]
      rw [foldl_cons, ← ih]
      rfl

variable {l : Link}

theorem mem_made : l ∈ ((bucketOf (indexBy side records) key).filterMap fun r =>
        (verdict c guardianKey r).map fun kind => (⟨other r, kind, r⟩ : Link)) ↔
      Made c guardianKey records side other key l := by
  rw [mem_filterMap]
  constructor
  · rintro ⟨r, hr, hl⟩
    obtain ⟨hholds, hside⟩ := mem_bucketOf.mp hr
    obtain ⟨kind, hkind, rfl⟩ := Option.map_eq_some_iff.mp hl
    exact ⟨hholds, hside, rfl, hkind⟩
  · rintro ⟨hholds, hside, hother, hverdict⟩
    refine ⟨l.record, mem_bucketOf.mpr ⟨hholds, hside⟩, ?_⟩
    rw [hverdict, Option.map_some, ← hother]

theorem rank_injective {k k' : LinkKind} (h : k.rank = k'.rank) : k = k' := by
  cases k <;> cases k' <;> first | rfl | cases h

theorem score_injective {l l' : Link} (hother : l.other = l'.other) (h : l.score = l'.score) :
    l = l' := by
  obtain ⟨hrank, hcanonical⟩ := Prod.mk.inj (toLex.injective h)
  obtain ⟨other, kind, record⟩ := l
  cases hother
  cases rank_injective hrank
  cases canonical_injective hcanonical
  rfl

/-- **The links of a key**: the best one that records make to each other key. -/
theorem mem_linksOf : l ∈ linksOf c guardianKey records side other key ↔
    Made c guardianKey records side other key l ∧
      ∀ l', Made c guardianKey records side other key l' → l'.other = l.other →
        l.score ≤ l'.score := by
  rw [linksOf_eq, mem_sortOn, mem_keepBest fun a _ b _ => score_injective, mem_made]
  refine and_congr_right fun _ => forall_congr' fun l' => ?_
  rw [mem_made]

theorem linksOf_nodup (key : Text) :
    ((linksOf c guardianKey records side other key).map Link.other).Nodup := by
  rw [linksOf_eq]
  exact ((sortOn_perm _ _).map _).nodup_iff.mpr (nodup_keepBest _)

theorem exists_linksOf (h : Made c guardianKey records side other key l) :
    ∃ best ∈ linksOf c guardianKey records side other key,
      best.other = l.other ∧ best.score ≤ l.score := by
  have hmade := mem_made.mpr h
  obtain ⟨best, hbest, hother⟩ := @exists_keepBest _ _ _ _ _ Link.other Link.score _ _ hmade
  refine ⟨best, ?_, hother, ?_⟩
  · rw [linksOf_eq, mem_sortOn]
    exact hbest
  · exact ((mem_keepBest fun a _ b _ => score_injective).mp hbest).2 l hmade hother.symm

theorem linksOf_congr (h : ∀ l, Made c guardianKey records side other key l ↔
    Made c guardianKey records' side other key l) :
    linksOf c guardianKey records side other key = linksOf c guardianKey records' side other key := by
  rw [linksOf_eq, linksOf_eq]
  refine sortOn_keepBest (fun a _ b _ => score_injective) fun l => ?_
  rw [mem_made, mem_made]
  exact h l

/-- **The links of a key depend on which well-formed records there are.** -/
theorem linksOf_same (h : ∀ r, Holds records r ↔ Holds records' r) :
    linksOf c guardianKey records side other = linksOf c guardianKey records' side other := by
  funext key
  refine linksOf_congr fun l => ?_
  constructor
  · rintro ⟨hholds, hside, hother, hverdict⟩
    exact ⟨(h _).mp hholds, hside, hother, hverdict⟩
  · rintro ⟨hholds, hside, hother, hverdict⟩
    exact ⟨(h _).mpr hholds, hside, hother, hverdict⟩

/-! ## §4. The call without its memo -/

/-- Every verdict in the memo is the record's own. -/
abbrev Verdicts (c : ChainCrypto) (guardianKey : Option Text) :
    List (Text × Option LinkKind) → Prop :=
  Recorded KeySuccessionRecord.canonical (verdict c guardianKey)

/-- A way of reading links answers what the other one says. -/
def LinksAnswer (c : ChainCrypto) (guardianKey : Option Text)
    (x : Text → StateM (List (Text × Option LinkKind)) (List Link)) (a : Text → Id (List Link)) :
    Prop := ∀ key, Answers (Verdicts c guardianKey) (x key) (a key)

theorem keepBetter_answers (other : KeySuccessionRecord → Text) (out : List Link)
    (r : KeySuccessionRecord) : Answers (Verdicts c guardianKey)
      (do match ← memoized canonical (verdict c guardianKey) r with
          | none => return out
          | some kind => return keepBetter Link.other Link.score out ⟨other r, kind, r⟩)
      (do match ← (verdict c guardianKey r : Id _) with
          | none => return out
          | some kind => return keepBetter Link.other Link.score out ⟨other r, kind, r⟩) := by
  refine (answers_memoized (fun a b hab => by rw [canonical_injective hab]) r).bind fun answer => ?_
  cases answer with
  | none | some => exact .pure _

theorem links_answer (index : List Bucket) (other : KeySuccessionRecord → Text) :
    LinksAnswer c guardianKey
      (fun key => links (memoized canonical (verdict c guardianKey)) index key other)
      (fun key => links (m := Id) (verdict c guardianKey) index key other) := by
  intro key
  exact (Answers.foldlM (keepBetter_answers other) _ _).bind fun out => .pure _

section

variable {preds succs : Text → StateM (List (Text × Option LinkKind)) (List Link)}
  {preds' succs' : Text → Id (List Link)} {held : Text}

theorem search_answers (h : LinksAnswer c guardianKey preds preds') (total fuel : Nat)
    (st : Search) : Answers (Verdicts c guardianKey) (search preds held total fuel st)
      (search preds' held total fuel st) := by
  induction fuel generalizing st with
  | zero => exact .pure _
  | succ fuel ih =>
    unfold search
    cases st.queue with
    | nil => exact .pure _
    | cons k queue =>
      refine (h k).bind fun links => ?_
      cases visit total held k links { st with queue := queue } with
      | none => exact .pure _
      | some result =>
        cases result with
        | error => exact .pure _
        | ok st => exact ih st

theorem walk_answers (h : LinksAnswer c guardianKey preds preds') (rooted : Text → Bool)
    (fuel : Nat) (path : Path) : Answers (Verdicts c guardianKey) (walk preds rooted held fuel path)
      (walk preds' rooted held fuel path) := by
  induction fuel generalizing path with
  | zero => exact .pure _
  | succ fuel ih =>
    refine (h path.key).bind fun links => ?_
    cases stepBack (rooted path.key) held path links with
    | error => exact .pure _
    | ok l => exact ih (path.push l)

theorem branches_answer (h : LinksAnswer c guardianKey succs succs') (chain : List Text) :
    Answers (Verdicts c guardianKey) (branchesOn succs chain) (branchesOn succs' chain) := by
  induction chain with
  | nil => exact .pure _
  | cons key chain ih =>
    cases chain with
    | nil => exact .pure _
    | cons =>
      exact (h key).bind fun succ => ih.bind fun others => .pure _

theorem successors_answer (h : LinksAnswer c guardianKey succs succs') (call : Call) (path : Path)
    (ancestry : RosterChainAncestry) : Answers (Verdicts c guardianKey)
      (successors call succs path ancestry) (successors call succs' path ancestry) := by
  refine (h _).bind fun heldSuccessors => ?_
  dsimp only
  split
  · exact .pure _
  · exact (branches_answer h _).bind fun branches => .pure _

theorem resolveFrom_answers (hpreds : LinksAnswer c guardianKey preds preds')
    (hsuccs : LinksAnswer c guardianKey succs succs') (call : Call) (fuel : Nat) :
    Answers (Verdicts c guardianKey) (resolveFrom c.toCrypto call preds succs fuel)
      (resolveFrom c.toCrypto call preds' succs' fuel) := by
  refine (search_answers hpreds _ _ _).bind fun found => ?_
  rcases found with _ | (_ | evidence)
  · exact .pure _
  · unfold resolveWalk
    refine (walk_answers hpreds _ _ _).bind fun ended => ?_
    rcases ended with _ | ⟨path, ⟨ancestry⟩ | ⟨evidence⟩⟩
    · exact .pure _
    · exact (successors_answer hsuccs call path ancestry).bind fun result => .pure _
    · exact .pure _
  · exact .pure _

end

def backward (c : ChainCrypto) (call : Call) : Text → List Link :=
  linksOf c call.guardianKey call.records KeySuccessionRecord.new_public_key
    KeySuccessionRecord.old_public_key

def forward (c : ChainCrypto) (call : Call) : Text → List Link :=
  linksOf c call.guardianKey call.records KeySuccessionRecord.old_public_key
    KeySuccessionRecord.new_public_key

/-- **The call without its memo.** -/
theorem resolveCall_eq (c : ChainCrypto) (call : Call) (fuel : Nat) :
    resolveCall c call fuel
      = resolveFrom (m := Id) c.toCrypto call (backward c call) (forward c call) fuel := by
  have hanswers := @resolveFrom_answers c call.guardianKey _ _ _ _
    (links_answer (indexBy new_public_key call.records) old_public_key)
    (links_answer (indexBy old_public_key call.records) new_public_key) call fuel
  exact (hanswers [] (recorded_nil _ _)).1

def Call.over (call : Call) (records : List JsValue) : Call := { call with records := records }

/-- **The call depends on which well-formed records there are.** -/
theorem resolveCall_same (c : ChainCrypto) {call : Call} {records : List JsValue}
    (h : ∀ r, Holds call.records r ↔ Holds records r) (fuel : Nat) :
    resolveCall c call fuel = resolveCall c (call.over records) fuel := by
  rw [resolveCall_eq, resolveCall_eq]
  have hback : backward c (call.over records) = backward c call := (linksOf_same h).symm
  have hforth : forward c (call.over records) = forward c call := (linksOf_same h).symm
  rw [hback, hforth]
  rfl

end Motebit.Roster
