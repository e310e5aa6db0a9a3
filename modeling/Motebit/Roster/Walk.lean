/-
  Motebit.Roster.Walk — THE SEARCH AND THE WALK end, and what they end with.

  Both go back along links to keys that some record departs from, and to each at most once: the
  search keeps what it has seen, the walk stops before a repeat.  So with more fuel than there
  are records neither runs out of it.

  Main results: `search_spec`, `walk_spec`, `branchesOf_spec`.
-/

import Motebit.Roster.Links

namespace Motebit.Roster

open Motebit.Lib List
open Motebit.Audit (JsValue)

/-- The keys a walk can stand at: the held one, and those that records depart from. -/
def ends (call : Call) : List Text :=
  call.held :: (call.records.filterMap normalize).map KeySuccessionRecord.old_public_key

theorem length_ends (call : Call) : (ends call).length ≤ call.records.length + 1 := by
  have hle := length_filterMap_le normalize call.records
  unfold ends
  rw [length_cons, length_map]
  omega

theorem mem_ends_hex {call : Call} {key : Text} (h : key ∈ ends call) : isHex32 key = true := by
  rcases mem_cons.mp h with rfl | h
  · exact call.held_hex
  · obtain ⟨r, -, rfl⟩ := mem_map.mp h
    exact r.old_hex

theorem length_le_ends {call : Call} {keys : List Text} (hnodup : keys.Nodup)
    (h : ∀ key ∈ keys, key ∈ ends call) : keys.length ≤ (ends call).length :=
  (subperm_of_subset hnodup h).length_le

variable {c : ChainCrypto} {call : Call} {key : Text} {l : Link} {k : Text} {preds : List Link}

theorem made_of_backward (h : l ∈ backward c call key) :
    Made c call.guardianKey call.records KeySuccessionRecord.new_public_key
      KeySuccessionRecord.old_public_key key l :=
  (mem_linksOf.mp h).1

theorem backward_ends (h : l ∈ backward c call key) : l.other ∈ ends call := by
  obtain ⟨⟨value, hvalue, hr⟩, -, hother, -⟩ := made_of_backward h
  rw [hother]
  exact mem_cons_of_mem _ (mem_map_of_mem (mem_filterMap.mpr ⟨value, hvalue, hr⟩))

/-! ## §1. The search -/

/-- The state of a search among some keys: what is seen is seen once, what is queued is seen, and
    each key but the held one has a parent that was seen before it. -/
structure Search.Sound (held : Text) (among : List Text) (st : Search) : Prop where
  nodup : st.seen.Nodup
  among : ∀ key ∈ st.seen, key ∈ among
  queued : ∀ key ∈ st.queue, key ∈ st.seen
  owned : ∀ p ∈ st.parent, p.key ∈ st.seen
  parented : ∀ key ∈ st.seen, key ≠ held → ∃ p, st.parent.find? (fun p => p.key == key) = some p ∧
    p.next ∈ st.seen ∧ st.seen.idxOf p.next < st.seen.idxOf key

variable {held : Text} {among : List Text} {st : Search}

theorem unwind_found (h : st.Sound held among) {cur : Text} (hcur : cur ∈ st.seen) {fuel : Nat}
    (hfuel : st.seen.idxOf cur < fuel) : ∃ evidence, unwind held st.parent fuel cur = some evidence := by
  induction fuel generalizing cur with
  | zero => exact absurd hfuel (Nat.not_lt_zero _)
  | succ fuel ih =>
    unfold unwind
    by_cases hheld : cur = held
    · exact ⟨[], if_pos hheld⟩
    · obtain ⟨p, hfind, hnext, hlt⟩ := h.parented cur hcur hheld
      obtain ⟨evidence, hevidence⟩ := ih hnext (by omega)
      rw [if_neg hheld, hfind]
      dsimp only
      rw [hevidence]
      exact ⟨_, rfl⟩

theorem Search.Sound.see (h : st.Sound held among) (hk : k ∈ st.seen) (hother : l.other ∈ among)
    (hnew : l.other ∉ st.seen) :
    Search.Sound held among ⟨st.parent ++ [⟨l.other, k, l.record⟩], st.seen ++ [l.other],
      st.queue ++ [l.other]⟩ where
  nodup := by
    rw [nodup_append]
    refine ⟨h.nodup, nodup_singleton _, fun a ha b hb hab => hnew ?_⟩
    rw [← mem_singleton.mp hb, ← hab]
    exact ha
  among key hkey := by
    rcases mem_append.mp hkey with hkey | hkey
    · exact h.among key hkey
    · rw [mem_singleton.mp hkey]
      exact hother
  queued key hkey := by
    rcases mem_append.mp hkey with hkey | hkey
    · exact mem_append_left _ (h.queued key hkey)
    · exact mem_append_right _ hkey
  owned p hp := by
    rcases mem_append.mp hp with hp | hp
    · exact mem_append_left _ (h.owned p hp)
    · rw [mem_singleton.mp hp]
      exact mem_append_right _ mem_cons_self
  parented key hkey hne := by
    rcases mem_append.mp hkey with hkey | hkey
    · obtain ⟨p, hfind, hnext, hlt⟩ := h.parented key hkey hne
      refine ⟨p, ?_, mem_append_left _ hnext, ?_⟩
      · rw [find?_append, hfind]
        rfl
      · rw [idxOf_append_of_mem hnext, idxOf_append_of_mem hkey]
        exact hlt
    · rw [mem_singleton.mp hkey]
      refine ⟨⟨l.other, k, l.record⟩, ?_, mem_append_left _ hk, ?_⟩
      · have hnone : (st.parent.find? fun p => p.key == l.other) = none := by
          rw [find?_eq_none]
          intro p hp heq
          rw [beq_iff_eq] at heq
          exact hnew (heq ▸ h.owned p hp)
        rw [find?_append, hnone]
        simp
      · have hlt := idxOf_lt_length_iff.mpr hk
        rw [idxOf_append_of_mem hk, idxOf_append_of_notMem hnew]
        omega

/-- **The predecessors of a key**: the search stays sound, what is seen is queued, and the
    evidence is of a link from the held key. -/
theorem visit_spec (hsound : st.Sound held among) (hk : k ∈ st.seen) {total : Nat}
    (htotal : among.length < total) (hpreds : ∀ l ∈ preds, l.other ∈ among) :
    (∃ st', visit total held k preds st = some (.ok st') ∧ st'.Sound held among ∧
        st'.seen.length + st.queue.length = st.seen.length + st'.queue.length) ∨
      (∃ evidence, visit total held k preds st = some (.error evidence)) ∧
        ∃ l ∈ preds, l.checked = true ∧ l.other = held := by
  induction preds generalizing st with
  | nil => exact .inl ⟨st, rfl, hsound, rfl⟩
  | cons l preds ih =>
    have hrest : ∀ l ∈ preds, l.other ∈ among := fun l hl => hpreds l (mem_cons_of_mem _ hl)
    have hskip : ∀ {st' : Search}, st'.Sound held among → k ∈ st'.seen →
        st'.seen.length + st.queue.length = st.seen.length + st'.queue.length →
        (∃ st'', visit total held k preds st' = some (.ok st'') ∧ st''.Sound held among ∧
          st''.seen.length + st.queue.length = st.seen.length + st''.queue.length) ∨
        (∃ evidence, visit total held k preds st' = some (.error evidence)) ∧
          ∃ l' ∈ l :: preds, l'.checked = true ∧ l'.other = held := by
      intro st' hsound' hk' hlength
      rcases ih hsound' hk' hrest with ⟨st'', hvisit, hsound'', hlength'⟩ | ⟨hvisit, l', hl', hheld⟩
      · exact .inl ⟨st'', hvisit, hsound'', by omega⟩
      · exact .inr ⟨hvisit, l', mem_cons_of_mem _ hl', hheld⟩
    unfold visit
    split
    · exact hskip hsound hk rfl
    · next hunchecked =>
        split
        · next hheld =>
            have hlt := idxOf_lt_length_iff.mpr hk
            have hle := (subperm_of_subset hsound.nodup hsound.among).length_le
            obtain ⟨evidence, hevidence⟩ := @unwind_found held among st hsound k hk total (by omega)
            rw [hevidence]
            exact .inr ⟨⟨_, rfl⟩, l, mem_cons_self, by unfold Link.checked; simpa using hunchecked,
              hheld⟩
        · split
          · exact hskip hsound hk rfl
          · next hseen =>
              have hsee := hsound.see hk (hpreds l mem_cons_self) hseen
              refine hskip hsee (mem_append_left _ hk) ?_
              show (st.seen ++ [l.other]).length + _ = _ + (st.queue ++ [l.other]).length
              rw [length_append, length_append]
              omega

theorem search_cons {preds : Text → List Link} {total fuel : Nat} {queue : List Text}
    (hqueue : st.queue = k :: queue) : search (m := Id) preds held total (fuel + 1) st
      = match visit total held k (preds k) { st with queue := queue } with
        | none => none
        | some (.error evidence) => some (some evidence)
        | some (.ok st) => search (m := Id) preds held total fuel st := by
  rw [search.eq_def]
  dsimp only
  rw [hqueue]
  show (match visit total held k (preds k) { st with queue := queue } with
    | none => (none : Option (Option (List KeySuccessionRecord)))
    | some (.error evidence) => some (some evidence)
    | some (.ok st) => search (m := Id) preds held total fuel st) = _
  cases visit total held k (preds k) { st with queue := queue } with
  | none => rfl
  | some result => cases result <;> rfl

/-- **The search ends**, and finds a cycle only along a link from the held key. -/
theorem search_spec {preds : Text → List Link}
    (hpreds : ∀ key, ∀ l ∈ preds key, l.other ∈ among) {total : Nat} (htotal : among.length < total)
    (hsound : st.Sound held among) {fuel : Nat}
    (hfuel : among.length + st.queue.length < fuel + st.seen.length) :
    search (m := Id) preds held total fuel st = some none ∨
      (∃ evidence, search (m := Id) preds held total fuel st = some (some evidence)) ∧
        ∃ key, ∃ l ∈ preds key, l.checked = true ∧ l.other = held := by
  induction fuel generalizing st with
  | zero =>
    have hle := (subperm_of_subset hsound.nodup hsound.among).length_le
    omega
  | succ fuel ih =>
    cases hqueue : st.queue with
    | nil =>
      left
      rw [search.eq_def]
      dsimp only
      rw [hqueue]
      rfl
    | cons k queue =>
      have hk : k ∈ st.seen := hsound.queued k (by rw [hqueue]; exact mem_cons_self)
      have hpopped : Search.Sound held among { st with queue := queue } :=
        ⟨hsound.nodup, hsound.among, fun key hkey => hsound.queued key (by
          rw [hqueue]
          exact mem_cons_of_mem _ hkey), hsound.owned, hsound.parented⟩
      rw [search_cons hqueue]
      rcases visit_spec hpopped hk htotal (hpreds k) with
        ⟨st', hvisit, hsound', hlength⟩ | ⟨⟨evidence, hvisit⟩, l, hl, hchecked, hheld⟩
      · rw [hvisit]
        have hlength : st'.seen.length + queue.length = st.seen.length + st'.queue.length := hlength
        rw [hqueue, length_cons] at hfuel
        exact ih hsound' (by omega)
      · rw [hvisit]
        exact .inr ⟨⟨evidence, rfl⟩, k, l, hl, hchecked, hheld⟩

theorem start_sound (hheld : held ∈ among) : Search.Sound held among ⟨[], [held], [held]⟩ where
  nodup := nodup_singleton held
  among key hkey := by
    rw [mem_singleton.mp hkey]
    exact hheld
  queued key hkey := hkey
  owned p hp := absurd hp not_mem_nil
  parented key hkey hne := absurd (mem_singleton.mp hkey) hne

/-! ## §2. The walk -/

/-- The record passed `verifyKeySuccession` as the call checks it. -/
def Verified (c : ChainCrypto) (guardianKey : Option Text) (r : KeySuccessionRecord) : Prop :=
  ∃ kind, verdict c guardianKey r = some kind ∧ kind ≠ .recovery_unchecked

structure Linked (c : ChainCrypto) (call : Call) (r : KeySuccessionRecord) (old new : Text) :
    Prop where
  holds : Holds call.records r
  verified : Verified c call.guardianKey r
  old_eq : r.old_public_key = old
  new_eq : r.new_public_key = new

/-- A path from the held key back: no key twice, and a verified record for each pair. -/
structure Path.Sound (c : ChainCrypto) (call : Call) (path : Path) : Prop where
  nodup : path.chain.Nodup
  ends : ∀ key ∈ path.chain, key ∈ ends call
  last : path.chain.getLast? = some call.held
  length : path.links.length = path.newer.length
  linked : ∀ (i : Nat) (r : KeySuccessionRecord), path.links[i]? = some r →
    ∃ old new, path.chain[i]? = some old ∧ path.chain[i + 1]? = some new ∧ Linked c call r old new

theorem linked_of_backward (h : l ∈ backward c call key) (hchecked : l.checked = true) :
    Linked c call l.record l.other key := by
  obtain ⟨hholds, hside, hother, hverdict⟩ := made_of_backward h
  exact ⟨hholds, ⟨l.kind, hverdict, by unfold Link.checked at hchecked; simpa using hchecked⟩,
    hother.symm, hside⟩

theorem checked_of_score {l' : Link} (h : l.score ≤ l'.score)
    (hchecked : l'.kind ≠ .recovery_unchecked) : l.checked = true := by
  have hrank : l.kind.rank ≤ l'.kind.rank := by
    rcases Prod.Lex.le_iff.mp h with hlt | ⟨heq, -⟩
    · exact hlt.le
    · exact heq.le
  unfold Link.checked
  generalize l.kind = k at hrank
  generalize l'.kind = k' at hrank hchecked
  cases k <;> cases k' <;> first | rfl | exact absurd rfl hchecked | exact absurd hrank (by decide)

variable {path : Path}

theorem stepBack_ok {rooted : Bool} (h : stepBack rooted held path preds = .ok l) :
    preds.filter Link.checked = [l] ∧ l.other ∉ path.chain := by
  unfold stepBack at h
  dsimp only at h
  split at h
  · cases h
  split at h
  · cases h
  next hrepeats =>
  split at h
  · split at h <;> cases h
  next hfew =>
  split at h
  · cases h
  cases hverified : preds.filter Link.checked with
  | nil =>
    rw [hverified] at h
    cases h
  | cons prev rest =>
    rw [hverified] at h hfew hrepeats
    cases h
    have hrest : rest = [] := length_eq_zero_iff.mp (by
      rw [length_cons] at hfew
      omega)
    subst hrest
    refine ⟨rfl, fun hmem => hrepeats ?_⟩
    rw [filter_cons_of_pos (by simpa using hmem)]
    exact cons_ne_nil _ _

theorem mem_of_stepBack {rooted : Bool} (h : stepBack rooted held path preds = .ok l) :
    l ∈ preds ∧ l.checked = true := by
  have hmem : l ∈ preds.filter Link.checked := by
    rw [(stepBack_ok h).1]
    exact mem_cons_self
  exact mem_filter.mp hmem

/-- **A step back keeps the path sound.** -/
theorem Path.Sound.push (hsound : path.Sound c call)
    (hl : l ∈ backward c call path.key) (hchecked : l.checked = true) (hnew : l.other ∉ path.chain) :
    (path.push l).Sound c call where
  nodup := nodup_cons.mpr ⟨hnew, hsound.nodup⟩
  ends key hkey := by
    rcases mem_cons.mp hkey with rfl | hkey
    · exact backward_ends hl
    · exact hsound.ends key hkey
  last := by
    show (l.other :: path.key :: path.newer).getLast? = _
    exact hsound.last
  length := by
    show (l.record :: path.links).length = (path.key :: path.newer).length
    rw [length_cons, length_cons, hsound.length]
  linked i r hr := by
    cases i with
    | zero =>
      cases hr
      exact ⟨l.other, path.key, rfl, rfl, linked_of_backward hl hchecked⟩
    | succ i => exact hsound.linked i r hr

variable {rooted : Text → Bool}

theorem walk_succ {preds : Text → List Link} {fuel : Nat} :
    walk (m := Id) preds rooted held (fuel + 1) path
      = match stepBack (rooted path.key) held path (preds path.key) with
        | .error stop => some (path, stop)
        | .ok l => walk (m := Id) preds rooted held fuel (path.push l) := by
  show (match stepBack (rooted path.key) held path (preds path.key) with
    | .error stop => (some (path, stop) : Option (Path × WalkEnd))
    | .ok l => walk (m := Id) preds rooted held fuel (path.push l)) = _
  cases stepBack (rooted path.key) held path (preds path.key) <;> rfl

/-- **The walk ends**, on a sound path. -/
theorem walk_spec {rooted : Text → Bool} {fuel : Nat} {path : Path} (hsound : path.Sound c call)
    (hfuel : (Roster.ends call).length < fuel + path.chain.length) :
    ∃ path' stop, walk (m := Id) (backward c call) rooted call.held fuel path
        = some (path', stop) ∧ path'.Sound c call ∧
      stepBack (rooted path'.key) call.held path' (backward c call path'.key) = .error stop := by
  induction fuel generalizing path with
  | zero =>
    have hle := length_le_ends hsound.nodup hsound.ends
    omega
  | succ fuel ih =>
    rw [walk_succ]
    cases hstep : stepBack (rooted path.key) call.held path (backward c call path.key) with
    | error stop => exact ⟨path, stop, rfl, hsound, hstep⟩
    | ok =>
      obtain ⟨hl, hchecked⟩ := mem_of_stepBack hstep
      refine ih (hsound.push hl hchecked (stepBack_ok hstep).2) ?_
      show _ < fuel + (path.chain.length + 1)
      omega

theorem first_sound : Path.Sound c call ⟨call.held, [], []⟩ where
  nodup := nodup_singleton _
  ends key hkey := by
    rw [mem_singleton.mp hkey]
    exact mem_cons_self
  last := rfl
  length := rfl
  linked _ _ hr := by cases hr

/-! ## §3. The branches -/

/-- Where a branch leads from and to. -/
def RosterChainBranch.sides (b : RosterChainBranch) : Text × Text := (b.at_key, b.to_key)

/-- The branches of a path, read without a memo. -/
def branchesOf (succs : Text → List Link) (chain : List Text) : List RosterChainBranch :=
  (branchesOn (m := Id) succs chain).run

variable {succs : Text → List Link} {chain : List Text} {b : RosterChainBranch}

theorem branchesOf_cons (key next : Text) (rest : List Text) :
    branchesOf succs (key :: next :: rest)
      = branchesAt key next (succs key) ++ branchesOf succs (next :: rest) := rfl

/-- **The branches of a path**: those at each key but the last. -/
theorem mem_branchesOf : b ∈ branchesOf succs chain ↔
    ∃ (i : Nat) (key next : Text), chain[i]? = some key ∧ chain[i + 1]? = some next ∧
      b ∈ branchesAt key next (succs key) := by
  induction chain with
  | nil =>
    constructor
    · nofun
    · rintro ⟨i, key, next, hkey, -⟩
      cases hkey
  | cons key chain ih =>
    cases chain with
    | nil =>
      constructor
      · nofun
      · rintro ⟨i, key, next, -, hnext, -⟩
        cases hnext
    | cons next =>
      rw [branchesOf_cons, mem_append, ih]
      constructor
      · rintro (hb | ⟨i, key', next', hkey', hnext', hb⟩)
        · exact ⟨0, key, next, rfl, rfl, hb⟩
        · exact ⟨i + 1, key', next', hkey', hnext', hb⟩
      · rintro ⟨i, key', next', hkey', hnext', hb⟩
        cases i with
        | zero =>
          cases hkey'
          cases hnext'
          exact .inl hb
        | succ i => exact .inr ⟨i, key', next', hkey', hnext', hb⟩

theorem mem_branchesAt {key next : Text} {succ : List Link} :
    b ∈ branchesAt key next succ ↔ ∃ l ∈ succ, l.checked = true ∧ l.other ≠ next ∧ l.other ≠ key ∧
      b = ⟨key, l.other, l.kind == .recovery, l.record⟩ := by
  unfold branchesAt
  rw [mem_map]
  constructor
  · rintro ⟨l, hl, rfl⟩
    obtain ⟨hl, htest⟩ := mem_filter.mp hl
    obtain ⟨hnext, hkey, hchecked⟩ := of_decide_eq_true htest
    exact ⟨l, hl, hchecked, hnext, hkey, rfl⟩
  · rintro ⟨l, hl, hchecked, hnext, hkey, rfl⟩
    exact ⟨l, mem_filter.mpr ⟨hl, decide_eq_true ⟨hnext, hkey, hchecked⟩⟩, rfl⟩

theorem branchesOf_nodup (hchain : chain.Nodup)
    (hsuccs : ∀ key, ((succs key).map Link.other).Nodup) :
    ((branchesOf succs chain).map RosterChainBranch.sides).Nodup := by
  induction chain with
  | nil => exact nodup_nil
  | cons key chain ih =>
    cases chain with
    | nil => exact nodup_nil
    | cons next =>
      rw [branchesOf_cons, map_append, nodup_append]
      obtain ⟨hnotin, hrest⟩ := nodup_cons.mp hchain
      refine ⟨?_, ih hrest, ?_⟩
      · have hkept : (((succs key).filter fun l => l.other ≠ next ∧ l.other ≠ key ∧
            l.checked).map Link.other).Nodup :=
          List.Nodup.sublist (filter_sublist.map _) (hsuccs key)
        unfold branchesAt
        rw [map_map]
        have hpair := List.Nodup.map (f := fun other => (key, other))
          (fun a b hab => (Prod.mk.inj hab).2) hkept
        rwa [map_map] at hpair
      · intro p hp p' hp' heq
        obtain ⟨b, hb, rfl⟩ := mem_map.mp hp
        obtain ⟨b', hb', rfl⟩ := mem_map.mp hp'
        obtain ⟨l, -, -, -, -, rfl⟩ := mem_branchesAt.mp hb
        obtain ⟨i, key', next', hkey', -, hb'⟩ := mem_branchesOf.mp hb'
        obtain ⟨l', -, -, -, -, rfl⟩ := mem_branchesAt.mp hb'
        have hsame : key = key' := (Prod.mk.inj heq).1
        exact hnotin (hsame ▸ mem_of_getElem? hkey')

variable {r : KeySuccessionRecord}

theorem made_forward (hholds : Holds call.records r) (hverified : Verified c call.guardianKey r) :
    ∃ l ∈ forward c call r.old_public_key, l.other = r.new_public_key ∧ l.checked = true := by
  obtain ⟨kind, hkind, hchecked⟩ := hverified
  obtain ⟨l, hl, hother, hscore⟩ := exists_linksOf
    (⟨hholds, rfl, rfl, hkind⟩ : Made c call.guardianKey call.records
      KeySuccessionRecord.old_public_key KeySuccessionRecord.new_public_key r.old_public_key
      ⟨r.new_public_key, kind, r⟩)
  exact ⟨l, hl, hother, checked_of_score hscore hchecked⟩

/-- **Each verified link off the path is listed once.** -/
theorem branchesOf_spec (hchain : chain.Nodup) {i : Nat} {key next : Text}
    (hkey : chain[i]? = some key) (hnext : chain[i + 1]? = some next)
    (hholds : Holds call.records r) (hverified : Verified c call.guardianKey r)
    (hold : r.old_public_key = key) (hother : r.new_public_key ≠ key) :
    r.new_public_key = next ∨
      ((branchesOf (forward c call) chain).map RosterChainBranch.sides).count
        (key, r.new_public_key) = 1 := by
  by_cases hpath : r.new_public_key = next
  · exact .inl hpath
  · obtain ⟨l, hl, hlother, hchecked⟩ := made_forward hholds hverified
    rw [hold] at hl
    right
    apply count_eq_one_of_mem (branchesOf_nodup hchain fun key => linksOf_nodup key)
    refine mem_map.mpr ⟨⟨key, l.other, l.kind == .recovery, l.record⟩, ?_, ?_⟩
    · exact mem_branchesOf.mpr ⟨i, key, next, hkey, hnext, mem_branchesAt.mpr ⟨l, hl, hchecked,
        by rw [hlother]; exact hpath, by rw [hlother]; exact hother, rfl⟩⟩
    · rw [← hlother]
      rfl

/-! ## §4. More fuel -/

variable {fuel fuel' : Nat}

theorem unwind_mono {parent : List Parent} (hle : fuel ≤ fuel') {cur : Text}
    {evidence : List KeySuccessionRecord} (h : unwind held parent fuel cur = some evidence) :
    unwind held parent fuel' cur = some evidence := by
  induction fuel generalizing fuel' cur evidence with
  | zero => cases h
  | succ fuel ih =>
    obtain ⟨more, rfl⟩ : ∃ more, fuel' = more + 1 := ⟨fuel' - 1, by omega⟩
    unfold unwind at h ⊢
    split
    · next hheld =>
      rwa [if_pos hheld] at h
    · next hheld =>
      rw [if_neg hheld] at h
      cases hfind : parent.find? fun p => p.key == cur with rw [hfind] at h
      | none => cases h
      | some =>
        dsimp only at h ⊢
        obtain ⟨rest, hrest, rfl⟩ := Option.map_eq_some_iff.mp h
        rw [ih (by omega) hrest]
        rfl

theorem visit_mono {total total' : Nat} (hle : total ≤ total')
    {result : Except (List KeySuccessionRecord) Search}
    (h : visit total held k preds st = some result) :
    visit total' held k preds st = some result := by
  induction preds generalizing st with
  | nil => exact h
  | cons l preds ih =>
    unfold visit at h ⊢
    split
    · next hunchecked =>
      rw [if_pos hunchecked] at h
      exact ih h
    · next hunchecked =>
      rw [if_neg hunchecked] at h
      split
      · next hheld =>
        rw [if_pos hheld] at h
        obtain ⟨evidence, hevidence, rfl⟩ := Option.map_eq_some_iff.mp h
        rw [unwind_mono hle hevidence]
        rfl
      · next hheld =>
        rw [if_neg hheld] at h
        split
        · next hseen =>
          rw [if_pos hseen] at h
          exact ih h
        · next hseen =>
          rw [if_neg hseen] at h
          exact ih h

theorem search_mono {preds : Text → List Link} {total total' fuel fuel' : Nat}
    (htotal : total ≤ total') (hle : fuel ≤ fuel') {found : Option (List KeySuccessionRecord)}
    (h : search (m := Id) preds held total fuel st = some found) :
    search (m := Id) preds held total' fuel' st = some found := by
  induction fuel generalizing fuel' st with
  | zero => cases h
  | succ fuel ih =>
    obtain ⟨more, rfl⟩ : ∃ more, fuel' = more + 1 := ⟨fuel' - 1, by omega⟩
    cases hqueue : st.queue with
    | nil =>
      rw [search.eq_def] at h ⊢
      dsimp only at h ⊢
      rw [hqueue] at h ⊢
      exact h
    | cons k queue =>
      rw [search_cons hqueue] at h ⊢
      cases hvisit : visit total held k (preds k) { st with queue := queue } with rw [hvisit] at h
      | none => cases h
      | some result =>
        rw [visit_mono htotal hvisit]
        cases result with
        | error => exact h
        | ok => exact ih (by omega) h

theorem walk_mono {preds : Text → List Link} (hle : fuel ≤ fuel') {ended : Path × WalkEnd}
    (h : walk (m := Id) preds rooted held fuel path = some ended) :
    walk (m := Id) preds rooted held fuel' path = some ended := by
  induction fuel generalizing fuel' path with
  | zero => cases h
  | succ fuel ih =>
    obtain ⟨more, rfl⟩ : ∃ more, fuel' = more + 1 := ⟨fuel' - 1, by omega⟩
    rw [walk_succ] at h ⊢
    cases hstep : stepBack (rooted path.key) held path (preds path.key) with rw [hstep] at h
    | error => exact h
    | ok => exact ih (by omega) h

/-! ## §5. The call -/

/-- **The result of a walk that stopped.** -/
def stoppedResult (c : ChainCrypto) (call : Call) (path : Path) (ancestry : RosterChainAncestry) :
    RosterKeyChainResult :=
  (successors (m := Id) call (forward c call) path ancestry).run

theorem resolveCall_read (c : ChainCrypto) (call : Call) (fuel : Nat) :
    resolveCall c call fuel
      = match search (m := Id) (backward c call) call.held fuel fuel
            ⟨[], [call.held], [call.held]⟩ with
        | none => none
        | some (some evidence) =>
          some (.refused .duplicate_key call.held evidence (duplicateDetail call.held))
        | some none =>
          match walk (m := Id) (backward c call) (rootedAt c.toCrypto call) call.held fuel
              ⟨call.held, [], []⟩ with
          | none => none
          | some (_, .forked evidence) => some (.refused .fork_at_held call.held evidence
              (txt "the held key has two verified predecessors; only its holder could sign both"))
          | some (path, .stopped ancestry) => some (stoppedResult c call path ancestry) := by
  rw [resolveCall_eq]
  unfold resolveFrom
  generalize search (m := Id) (backward c call) call.held fuel fuel ⟨[], [call.held], [call.held]⟩
    = found
  rcases found with _ | (_ | evidence)
  · rfl
  · show resolveWalk (m := Id) c.toCrypto call (backward c call) (forward c call) fuel = _
    unfold resolveWalk
    generalize walk (m := Id) (backward c call) (rootedAt c.toCrypto call) call.held fuel
      ⟨call.held, [], []⟩ = ended
    rcases ended with _ | ⟨path, ⟨ancestry⟩ | ⟨evidence⟩⟩ <;> rfl
  · rfl

end Motebit.Roster
