/-
  Motebit.Roster.Resolved — WHAT A RESOLVED KEY CHAIN SAYS, and who can change it.

  The call returns on every input, and its result is a function of which well-formed records
  there are.  A chain it returns is one the roster can be reduced under.  Records that neither
  the held key nor the guardian signed make it longer or shorter at its old end, which no active
  machine depends on.

  Main results: `key_chain_sound`, `strangers_change_no_active`.
-/

import Motebit.Roster.Head
import Motebit.Roster.Walk

namespace Motebit.Roster

open Motebit.Lib List
open Motebit.Audit (JsValue)
open KeySuccessionRecord

variable {c : ChainCrypto} {call : Call}

/-! ## §1. Well-formed calls -/

def Call.input (call : Call) : KeyChainInput where
  motebitId := .string call.motebitId
  held := .string call.held
  records := .array call.records
  guardianKey := match call.guardianKey with
    | none => .undefined
    | some key => .string key

theorem guardianField_input (call : Call) :
    guardianField call.input.guardianKey = some call.guardianKey := by
  obtain ⟨motebitId, held, guardianKey, records, hmotebit, hheld, hguardian⟩ := call
  cases guardianKey with
  | none => rfl
  | some key => exact if_pos (hguardian key rfl)

/-- **The well-formed inputs** are the calls. -/
theorem checkInput_ok {input : KeyChainInput} : checkInput input = .ok call ↔ input = call.input := by
  constructor
  · intro h
    obtain ⟨motebitId, held, records, guardianKey⟩ := input
    unfold checkInput at h
    dsimp only at h
    split at h
    · split at h
      · split at h
        · split at h
          · split at h
            · next hguardian =>
              split at h
              · cases h
                unfold Call.input
                dsimp only
                congr 1
                unfold guardianField at hguardian
                split at hguardian
                · cases hguardian
                  rfl
                · split at hguardian
                  · cases hguardian
                    rfl
                  · cases hguardian
                · cases hguardian
              · cases h
            · cases h
          · cases h
        · cases h
      · cases h
    · cases h
  · rintro rfl
    have hguardian := guardianField_input call
    obtain ⟨motebitId, held, guardianKey, records, hmotebit, hheld, hhex⟩ := call
    unfold checkInput Call.input at *
    dsimp only at *
    rw [dif_pos hmotebit, dif_pos hheld]
    split
    · next found hfound =>
      rw [hguardian] at hfound
      cases hfound
      rfl
    · next hfound =>
      rw [hguardian] at hfound
      cases hfound

theorem resolve_input (fuel : Nat) :
    resolveRosterKeyChain c call.input fuel = resolveCall c call fuel := by
  unfold resolveRosterKeyChain
  rw [checkInput_ok.mpr rfl]

/-! ## §2. The call returns -/

variable {result : RosterKeyChainResult} {r : KeySuccessionRecord}

theorem resolveCall_mono {fuel fuel' : Nat} (hle : fuel ≤ fuel')
    (h : resolveCall c call fuel = some result) : resolveCall c call fuel' = some result := by
  rw [resolveCall_read] at h ⊢
  cases hsearch : search (m := Id) (backward c call) call.held fuel fuel
      ⟨[], [call.held], [call.held]⟩ with
  | none =>
    rw [hsearch] at h
    cases h
  | some found =>
    rw [hsearch] at h
    rw [search_mono hle hle hsearch]
    cases found with
    | some => exact h
    | none =>
      cases hwalk : walk (m := Id) (backward c call) (rootedAt c.toCrypto call) call.held fuel
          ⟨call.held, [], []⟩ with
      | none =>
        rw [hwalk] at h
        cases h
      | some ended =>
        rw [hwalk] at h
        rw [walk_mono hle hwalk]
        exact h

/-- How the call ends: on a cycle that a link from the held key closes, or where the walk ends. -/
theorem resolveCall_ends {fuel : Nat} (hfuel : (ends call).length < fuel) :
    (∃ evidence, resolveCall c call fuel
        = some (.refused .duplicate_key call.held evidence (duplicateDetail call.held))) ∧
      (∃ key, ∃ l ∈ backward c call key, l.checked = true ∧ l.other = call.held) ∨
    ∃ path stop, walk (m := Id) (backward c call) (rootedAt c.toCrypto call) call.held fuel
        ⟨call.held, [], []⟩ = some (path, stop) ∧ path.Sound c call ∧
      stepBack (rootedAt c.toCrypto call path.key) call.held path (backward c call path.key)
        = .error stop ∧
      resolveCall c call fuel = match stop with
        | .forked evidence => some (.refused .fork_at_held call.held evidence
            (txt "the held key has two verified predecessors; only its holder could sign both"))
        | .stopped ancestry => some (stoppedResult c call path ancestry) := by
  have hheld : call.held ∈ ends call := mem_cons_self
  rw [resolveCall_read]
  rcases @search_spec call.held (ends call) _ (backward c call) (fun _ _ hl => backward_ends hl) fuel
      hfuel (start_sound hheld) fuel (by show _ + 1 < fuel + 1; omega) with
    hsearch | ⟨⟨evidence, hsearch⟩, hcycle⟩
  · obtain ⟨path, stop, hwalk, hsound, hstop⟩ := @walk_spec c call (rootedAt c.toCrypto call) fuel _
      first_sound (by show _ < fuel + 1; omega)
    refine .inr ⟨path, stop, hwalk, hsound, hstop, ?_⟩
    rw [hsearch]
    rw [hwalk]
    cases stop <;> rfl
  · rw [hsearch]
    exact .inl ⟨⟨evidence, rfl⟩, hcycle⟩

/-- The call returns this result, with more fuel than there are records. -/
def Returns (c : ChainCrypto) (call : Call) (result : RosterKeyChainResult) : Prop :=
  ∀ fuel, call.records.length + 1 < fuel →
    resolveRosterKeyChain c call.input fuel = some result

/-- **The call returns.** -/
theorem exists_returns (c : ChainCrypto) (call : Call) : ∃ result, Returns c call result := by
  have hle := length_ends call
  have hsome : ∃ result, resolveCall c call (call.records.length + 2) = some result := by
    rcases @resolveCall_ends c call (call.records.length + 2) (by omega) with
      ⟨⟨evidence, hresult⟩, -⟩ | ⟨path, stop, -, -, -, hresult⟩
    · exact ⟨_, hresult⟩
    · rw [hresult]
      cases stop <;> exact ⟨_, rfl⟩
  obtain ⟨result, hresult⟩ := hsome
  refine ⟨result, fun fuel hfuel => ?_⟩
  rw [resolve_input]
  exact resolveCall_mono (by omega) hresult

variable {fuel : Nat}

theorem Returns.of_some (h : resolveRosterKeyChain c call.input fuel = some result) :
    Returns c call result := by
  obtain ⟨result', hreturns⟩ := exists_returns c call
  have hmore := resolveCall_mono (Nat.le_max_left fuel (call.records.length + 2))
    ((resolve_input fuel).symm.trans h)
  have hreturn := hreturns (max fuel (call.records.length + 2)) (by omega)
  rw [resolve_input, hmore] at hreturn
  cases hreturn
  exact hreturns

/-- **The result is a function of which well-formed records there are.** -/
theorem Returns.same {records : List JsValue} (h : Returns c call result)
    (hsame : ∀ r, Holds call.records r ↔ Holds records r) :
    Returns c (call.over records) result := by
  have hbig := h (call.records.length + records.length + 2) (by omega)
  rw [resolve_input, resolveCall_same c hsame, ← resolve_input] at hbig
  exact .of_some hbig

/-! ## §3. A chain that is returned -/

/-- What an ok result rests on: no verified record leaves the held key, and the path. -/
structure Resolved (c : ChainCrypto) (call : Call) (path : Path) (result : RosterKeyChainOk) :
    Prop where
  sound : path.Sound c call
  unsuperseded : (forward c call call.held).filter Link.checked = []
  chain : result.chain = path.chain
  head : result.head = call.held
  links : result.links = path.links
  branches : result.branches = branchesOf (forward c call) path.chain

theorem stoppedResult_read (c : ChainCrypto) (call : Call) (path : Path)
    (ancestry : RosterChainAncestry) : stoppedResult c call path ancestry
      = if (forward c call call.held).filter Link.checked ≠ [] then
          .refused .held_key_superseded call.held
            (((forward c call call.held).filter Link.checked).map Link.record)
            (txt "a verified succession record rotates the held key away")
        else .ok ⟨path.chain, call.held, path.links, ancestry, isSovereignShaped call.motebitId,
          branchesOf (forward c call) path.chain,
          (branchesOf (forward c call) path.chain).any RosterChainBranch.guardian_verified⟩ := by
  show (if (forward c call call.held).filter Link.checked ≠ [] then _ else _) = _
  split <;> rfl

theorem stoppedResult_unsuperseded (h : (forward c call call.held).filter Link.checked = [])
    (path : Path) (ancestry : RosterChainAncestry) : stoppedResult c call path ancestry
      = .ok ⟨path.chain, call.held, path.links, ancestry, isSovereignShaped call.motebitId,
          branchesOf (forward c call) path.chain,
          (branchesOf (forward c call) path.chain).any RosterChainBranch.guardian_verified⟩ := by
  rw [stoppedResult_read, if_neg (not_not.mpr h)]

variable {ancestry : RosterChainAncestry}

theorem stoppedResult_ok {path : Path} {result : RosterKeyChainOk} (hsound : path.Sound c call)
    (h : stoppedResult c call path ancestry = .ok result) : Resolved c call path result := by
  rw [stoppedResult_read] at h
  split at h
  · cases h
  · next hnone =>
    cases h
    exact ⟨hsound, not_not.mp hnone, rfl, rfl, rfl, rfl⟩

theorem returns_ok {result : RosterKeyChainOk} (h : Returns c call (.ok result))
    (hfuel : call.records.length + 1 < fuel) :
    ∃ path ancestry, walk (m := Id) (backward c call) (rootedAt c.toCrypto call) call.held fuel
        ⟨call.held, [], []⟩ = some (path, .stopped ancestry) ∧ Resolved c call path result := by
  have hle := length_ends call
  have hresult := h fuel hfuel
  rw [resolve_input] at hresult
  rcases @resolveCall_ends c call fuel (by omega) with
    ⟨⟨evidence, hends⟩, -⟩ | ⟨path, stop, hwalk, hsound, -, hends⟩
  · rw [hends] at hresult
    cases hresult
  · rw [hends] at hresult
    cases stop with
    | forked => cases hresult
    | stopped ancestry =>
      exact ⟨path, ancestry, hwalk, stoppedResult_ok hsound (Option.some.inj hresult)⟩

theorem Resolved.not_left {path : Path} {result : RosterKeyChainOk}
    (h : Resolved c call path result) (hholds : Holds call.records r)
    (hverified : Verified c call.guardianKey r) : r.old_public_key ≠ call.held := by
  intro hold
  obtain ⟨l, hl, -, hchecked⟩ := made_forward hholds hverified
  rw [hold] at hl
  have hmem : l ∈ (forward c call call.held).filter Link.checked :=
    mem_filter.mpr ⟨hl, hchecked⟩
  rw [h.unsuperseded] at hmem
  cases hmem

theorem Path.Sound.usable {path : Path} (h : path.Sound c call) {id : Text} (hid : id ≠ []) :
    Usable (some id) (some (path.chain.map Json.string)) id path.chain :=
  usable_strings.mpr ⟨rfl, by simp [Option.filter, hid], cons_ne_nil _ _,
    fun key hkey => mem_ends_hex (h.ends key hkey), h.nodup⟩

/-- **A key chain is sound**: the call returns, with one result for all orders, copies and junk;
    and a chain it returns has no key twice, ends at the held key, is never refused by the
    roster, has a verified record for each pair and none from the held key, and lists each
    verified link off it once. -/
theorem key_chain_sound (c : ChainCrypto) (call : Call) :
    ∃ result, Returns c call result ∧
      (∀ records, (∀ r, Holds call.records r ↔ Holds records r) →
        Returns c (call.over records) result) ∧
      ∀ ok, result = .ok ok →
        ok.chain ≠ [] ∧ ok.chain.Nodup ∧ (∀ key ∈ ok.chain, isHex32 key = true) ∧
        ok.chain.getLast? = some call.held ∧
        (∀ enrolled retired, ∃ v, verifyHostRoster c.toCrypto ⟨some call.motebitId,
          some (ok.chain.map Json.string), some enrolled, some retired⟩ = .ok v) ∧
        ok.links.length + 1 = ok.chain.length ∧
        (∀ (i : Nat) (r : KeySuccessionRecord), ok.links[i]? = some r →
          ok.chain[i]? = some r.old_public_key ∧ ok.chain[i + 1]? = some r.new_public_key ∧
            Holds call.records r ∧ Verified c call.guardianKey r) ∧
        (∀ r, Holds call.records r → Verified c call.guardianKey r → r.old_public_key ≠ call.held) ∧
        (∀ (i : Nat) (next : Text) (r : KeySuccessionRecord), Holds call.records r →
          Verified c call.guardianKey r → ok.chain[i]? = some r.old_public_key →
          ok.chain[i + 1]? = some next → r.new_public_key ≠ r.old_public_key →
            r.new_public_key = next ∨ (ok.branches.map RosterChainBranch.sides).count
              (r.old_public_key, r.new_public_key) = 1) := by
  obtain ⟨result, hreturns⟩ := exists_returns c call
  refine ⟨result, hreturns, fun records hsame => hreturns.same hsame, ?_⟩
  rintro ok rfl
  obtain ⟨path, ancestry, -, hresolved⟩ := returns_ok hreturns (Nat.lt_succ_self _)
  have hsound := hresolved.sound
  rw [hresolved.chain, hresolved.links, hresolved.branches]
  refine ⟨cons_ne_nil _ _, hsound.nodup, fun key hkey => mem_ends_hex (hsound.ends key hkey),
    hsound.last, fun enrolled retired => ?_, ?_, fun i r hr => ?_,
    fun r hholds hverified => hresolved.not_left hholds hverified,
    fun i next r hholds hverified hkey hnext hother =>
      branchesOf_spec hsound.nodup hkey hnext hholds hverified rfl hother⟩
  · exact ⟨_, verifyHostRoster_usable (hsound.usable call.motebit_ne)⟩
  · rw [hsound.length]
    rfl
  · obtain ⟨old, new, hold, hnew, hlinked⟩ := hsound.linked i r hr
    rw [hlinked.old_eq, hlinked.new_eq]
    exact ⟨hold, hnew, hlinked.holds, hlinked.verified⟩

/-! ## §4. Records of strangers -/

/-- A signature of the record verifies under the key, as its new one or as its old one. -/
def SignedUnder (c : ChainCrypto) (r : KeySuccessionRecord) (key : Text) : Prop :=
  (r.new_public_key = key ∧ newKeySigned c r = true) ∨
    ∃ signature, r.authority = .old_key_signature signature ∧ r.old_public_key = key ∧
      c.verifyBySuite (utf8 r.payload.canonical) (fromHex signature) (fromHex key) = true

/-- The guardian's signature of a recovery verifies under the key. -/
def GuardianSigned (c : ChainCrypto) (r : KeySuccessionRecord) (key : Text) : Prop :=
  ∃ signature, r.authority = .guardian_signature signature ∧
    c.verifyBySuite (utf8 r.payload.canonical) (fromHex signature) (fromHex key) = true

/-- Nothing among the values is signed by the held key or the pinned guardian. -/
def Strangers (c : ChainCrypto) (call : Call) (extra : List JsValue) : Prop :=
  ∀ r, Holds extra r → ¬ SignedUnder c r call.held ∧
    ∀ guardian ∈ call.guardianKey, ¬ GuardianSigned c r guardian

variable {guardianKey : Option Text}

theorem newKeySigned_of_verdict {kind : LinkKind}
    (h : verdict c guardianKey r = some kind) : newKeySigned c r = true := by
  have hsigned : ∀ {r' : KeySuccessionRecord} {guardian : Option Text},
      verifyKeySuccession c r' guardian = true → newKeySigned c r' = true := by
    intro r' guardian hverify
    exact (Bool.and_eq_true_iff.mp hverify).1
  unfold verdict at h
  split at h
  · next hrecovery =>
    split at h
    · split at h
      · next hverify => exact hsigned hverify
      · cases h
    · dsimp only at h
      split at h
      · next hverify =>
        -- the probe covers the same payload
        have hprobe := hsigned hverify
        have hpayload : payload
            { r with authority := .guardian_signature r.new_key_signature } = r.payload := by
          unfold payload
          rw [hrecovery]
          rfl
        unfold newKeySigned at hprobe ⊢
        rwa [hpayload] at hprobe
      · cases h
  · split at h
    · next hverify => exact hsigned hverify
    · cases h

theorem signed_of_verified (h : Verified c guardianKey r) :
    SignedUnder c r r.old_public_key ∨ ∃ guardian ∈ guardianKey, GuardianSigned c r guardian := by
  obtain ⟨kind, hverdict, hchecked⟩ := h
  unfold verdict at hverdict
  split at hverdict
  · next hrecovery =>
    split at hverdict
    · next guardian =>
      split at hverdict
      · next hverify =>
        right
        refine ⟨guardian, rfl, ?_⟩
        unfold verifyKeySuccession at hverify
        unfold recovery at hrecovery
        cases hauthority : r.authority with
        | old_key_signature =>
          rw [hauthority] at hrecovery
          cases hrecovery
        | guardian_signature signature =>
          rw [hauthority] at hverify
          rw [Bool.and_eq_true, Bool.and_eq_true] at hverify
          exact ⟨signature, hauthority, hverify.2.2⟩
      · cases hverdict
    · dsimp only at hverdict
      split at hverdict
      · cases hverdict
        exact absurd rfl hchecked
      · cases hverdict
  · next hrecovery =>
    split at hverdict
    · next hverify =>
      left
      right
      unfold verifyKeySuccession at hverify
      unfold recovery at hrecovery
      cases hauthority : r.authority with
      | old_key_signature signature =>
        rw [hauthority] at hverify
        rw [Bool.and_eq_true, Bool.and_eq_true] at hverify
        exact ⟨signature, rfl, rfl, hverify.2.2⟩
      | guardian_signature =>
        rw [hauthority] at hrecovery
        exact absurd rfl hrecovery
    · cases hverdict

section

variable {extra : List JsValue}

theorem Strangers.not_to_held (h : Strangers c call extra) {r : KeySuccessionRecord}
    (hholds : Holds extra r) {kind : LinkKind} (hverdict : verdict c call.guardianKey r = some kind) :
    r.new_public_key ≠ call.held :=
  fun hnew => (h r hholds).1 (.inl ⟨hnew, newKeySigned_of_verdict hverdict⟩)

theorem Strangers.not_left (h : Strangers c call extra) {r : KeySuccessionRecord}
    (hholds : Holds extra r) (hverified : Verified c call.guardianKey r) :
    r.old_public_key ≠ call.held := by
  intro hold
  rcases signed_of_verified hverified with hsigned | ⟨guardian, hguardian, hsigned⟩
  · rw [hold] at hsigned
    exact (h r hholds).1 hsigned
  · exact (h r hholds).2 guardian hguardian hsigned

theorem backward_append {key : Text} {l : Link} (hl : l ∈ backward c call key)
    (hchecked : l.checked = true) :
    ∃ l' ∈ backward c (call.over (call.records ++ extra)) key,
      l'.other = l.other ∧ l'.checked = true := by
  obtain ⟨hholds, hside, hother, hverdict⟩ := made_of_backward hl
  obtain ⟨l', hl', hother', hscore⟩ := exists_linksOf
    (⟨holds_append.mpr (.inl hholds), hside, hother, hverdict⟩ : Made c call.guardianKey
      (call.records ++ extra) new_public_key old_public_key
      key l)
  refine ⟨l', hl', hother', checked_of_score hscore ?_⟩
  unfold Link.checked at hchecked
  simpa using hchecked

theorem backward_held (h : Strangers c call extra) :
    backward c (call.over (call.records ++ extra)) call.held = backward c call call.held := by
  refine linksOf_congr fun l => ?_
  constructor
  · rintro ⟨hholds, hside, hother, hverdict⟩
    rcases holds_append.mp hholds with hholds | hholds
    · exact ⟨hholds, hside, hother, hverdict⟩
    · exact absurd hside (h.not_to_held hholds hverdict)
  · rintro ⟨hholds, hside, hother, hverdict⟩
    exact ⟨holds_append.mpr (.inl hholds), hside, hother, hverdict⟩

/-! ## §5. Two walks -/

variable {path path' : Path}

theorem walk_suffix {preds : Text → List Link} {rooted : Text → Bool} {held : Text} {stop : WalkEnd}
    (h : walk (m := Id) preds rooted held fuel path = some (path', stop)) :
    path.chain <:+ path'.chain := by
  induction fuel generalizing path with
  | zero => cases h
  | succ fuel ih =>
    rw [walk_succ] at h
    cases hstep : stepBack (rooted path.key) held path (preds path.key) with rw [hstep] at h
    | error =>
      cases h
      exact suffix_rfl
    | ok l => exact (suffix_cons l.other path.chain).trans (ih h)

theorem stepBack_chain {rooted : Bool} {held : Text} {preds : List Link}
    (hchain : path.chain = path'.chain) :
    stepBack rooted held path preds = stepBack rooted held path' preds := by
  have hkey : path.key = path'.key := (List.cons.inj hchain).1
  unfold stepBack
  rw [hchain, hkey]

/-- **Two walks that never part**: where both go back they go to one key, so one path is a suffix
    of the other. -/
theorem walks_comparable {preds preds' : Text → List Link} {rooted : Text → Bool} {held : Text}
    (hagree : ∀ (path : Path) (l l' : Link),
      stepBack (rooted path.key) held path (preds path.key) = .ok l →
      stepBack (rooted path.key) held path (preds' path.key) = .ok l' → l'.other = l.other)
    {fuel fuel' : Nat} {path path' ended ended' : Path} {stop stop' : WalkEnd}
    (hchain : path.chain = path'.chain)
    (h : walk (m := Id) preds rooted held fuel path = some (ended, stop))
    (h' : walk (m := Id) preds' rooted held fuel' path' = some (ended', stop')) :
    ended'.chain <:+ ended.chain ∨ ended.chain <:+ ended'.chain := by
  induction fuel generalizing fuel' path path' with
  | zero => cases h
  | succ fuel ih =>
    cases fuel' with
    | zero => cases h'
    | succ =>
      have hkey : path'.key = path.key := (List.cons.inj hchain).1.symm
      have hsuffix := walk_suffix h
      have hsuffix' := walk_suffix h'
      rw [walk_succ] at h h'
      rw [hkey, stepBack_chain hchain.symm] at h'
      cases hstep : stepBack (rooted path.key) held path (preds path.key) with
      | error =>
        -- the first walk is over, so the second one's path contains it
        rw [hstep] at h
        cases h
        rw [hchain]
        exact .inr hsuffix'
      | ok l =>
        cases hstep' : stepBack (rooted path.key) held path (preds' path.key) with
        | error =>
          rw [hstep'] at h'
          cases h'
          rw [← hchain]
          exact .inl hsuffix
        | ok l' =>
          rw [hstep] at h
          rw [hstep'] at h'
          refine ih ?_ h h'
          show l.other :: path.chain = l'.other :: path'.chain
          rw [hagree path l l' hstep hstep', hchain]

theorem stepBack_agree {rooted : Bool} {path : Path} {l l' : Link}
    (h : stepBack rooted call.held path (backward c call path.key) = .ok l)
    (h' : stepBack rooted call.held path
      (backward c (call.over (call.records ++ extra)) path.key) = .ok l') : l'.other = l.other := by
  obtain ⟨hl, hchecked⟩ := mem_of_stepBack h
  obtain ⟨best, hbest, hother, hbestChecked⟩ := @backward_append c call extra _ _ hl hchecked
  have hmem := mem_filter.mpr ⟨hbest, hbestChecked⟩
  rw [(stepBack_ok h').1, mem_singleton] at hmem
  rw [← hmem]
  exact hother

theorem not_forked (hstrangers : Strangers c call extra) {stop : WalkEnd}
    (h : walk (m := Id) (backward c call) (rootedAt c.toCrypto call) call.held fuel
      ⟨call.held, [], []⟩ = some (path, .stopped ancestry))
    (hsound : path'.Sound c (call.over (call.records ++ extra)))
    (hstop : stepBack (rootedAt c.toCrypto call path'.key) call.held path'
      (backward c (call.over (call.records ++ extra)) path'.key) = .error stop) :
    ∃ ancestry', stop = .stopped ancestry' := by
  cases stop with
  | stopped ancestry' => exact ⟨ancestry', rfl⟩
  | forked =>
    have hkey : path'.key = call.held := by
      have hfork := hstop
      unfold stepBack at hfork
      dsimp only at hfork
      split at hfork
      · cases hfork
      split at hfork
      · cases hfork
      split at hfork
      · split at hfork
        · next hheld => exact hheld
        · cases hfork
      · split at hfork
        · cases hfork
        · split at hfork <;> cases hfork
    -- the held key is the last of the path, so the walk has not left it
    have hnewer : path'.newer = [] := by
      by_contra hne
      have hlast : (path'.key :: path'.newer).getLast? = some call.held := hsound.last
      obtain ⟨next, rest, hnext⟩ := exists_cons_of_ne_nil hne
      rw [hnext, getLast?_cons_cons] at hlast
      have hmem : call.held ∈ path'.newer := by
        rw [hnext]
        exact mem_of_getLast? hlast
      exact (nodup_cons.mp hsound.nodup).1 (hkey ▸ hmem)
    have hchain : path'.chain = Path.chain ⟨call.held, [], []⟩ := by
      show path'.key :: path'.newer = [call.held]
      rw [hkey, hnewer]
    rw [hkey, backward_held hstrangers, stepBack_chain hchain] at hstop
    cases fuel with
    | zero => cases h
    | succ =>
      rw [walk_succ] at h
      rw [hstop] at h
      cases h

end

/-- Two reductions of the roster have the same active machines. -/
def SameActive (v v' : HostRosterVerdict) : Prop :=
  v.active.map (fun m => (m.device_id, m.entries)) = v'.active.map fun m => (m.device_id, m.entries)

theorem sameActive_suffix {d : Crypto} {id : Option Text} {keys keys' : List Text}
    {enrolled retired : List Json} (hsuffix : keys' <:+ keys) (hne : keys' ≠ [])
    {v v' : HostRosterVerdict}
    (hv : verifyHostRoster d ⟨id, some (keys.map Json.string), some enrolled, some retired⟩ = .ok v)
    (hv' : verifyHostRoster d ⟨id, some (keys'.map Json.string), some enrolled, some retired⟩
      = .ok v') : SameActive v v' := by
  obtain ⟨dropped, rfl⟩ := hsuffix
  obtain ⟨v'', hv'', hactive⟩ := active_suffix hne hv
  rw [hv'] at hv''
  cases hv''
  unfold SameActive
  rw [hactive, map_map]
  rfl

/-- **Strangers change no active machine**: records that neither the held key nor the guardian
    signed make no refusal of a chain that resolved; one of the two chains is a suffix of the
    other, and the roster has the same active machines under either. -/
theorem strangers_change_no_active {fuel : Nat} {result : RosterKeyChainOk}
    {extra : List JsValue} (hstrangers : Strangers c call extra)
    (hok : resolveRosterKeyChain c call.input fuel = some (.ok result)) :
    ∃ result', Returns c (call.over (call.records ++ extra)) (.ok result') ∧
      result'.head = call.held ∧
      (result'.chain <:+ result.chain ∨ result.chain <:+ result'.chain) ∧
      ∀ id ≠ [], ∀ enrolled retired, ∃ v v',
        verifyHostRoster c.toCrypto ⟨some id, some (result.chain.map Json.string), some enrolled,
          some retired⟩ = .ok v ∧
        verifyHostRoster c.toCrypto ⟨some id, some (result'.chain.map Json.string), some enrolled,
          some retired⟩ = .ok v' ∧ SameActive v v' := by
  obtain ⟨path, ancestry, hwalk, hresolved⟩ := returns_ok (Returns.of_some hok)
    (Nat.lt_succ_self (call.records.length + 1))
  -- with the added records there is still no verified record from the held key
  have hnone : ∀ r, Holds (call.records ++ extra) r → Verified c call.guardianKey r →
      r.old_public_key ≠ call.held := by
    intro r hholds hverified
    rcases holds_append.mp hholds with hholds | hholds
    · exact hresolved.not_left hholds hverified
    · exact hstrangers.not_left hholds hverified
  have hlinked : ∀ {side other key} {l : Link},
      l ∈ linksOf c call.guardianKey (call.records ++ extra) side other key → l.checked = true →
        l.record.old_public_key ≠ call.held := by
    intro side other key l hl hchecked
    obtain ⟨hholds, -, -, hverdict⟩ := (mem_linksOf.mp hl).1
    exact hnone _ hholds ⟨l.kind, hverdict, by unfold Link.checked at hchecked; simpa using hchecked⟩
  have hunsuperseded : (forward c (call.over (call.records ++ extra)) call.held).filter Link.checked
      = [] := by
    rw [filter_eq_nil_iff]
    intro l hl hchecked
    exact hlinked hl hchecked (mem_linksOf.mp hl).1.side_eq
  -- so there is no cycle through it, and the walk stops
  rcases @resolveCall_ends c (call.over (call.records ++ extra))
      ((ends (call.over (call.records ++ extra))).length + 1) (Nat.lt_succ_self _) with
    ⟨-, key, l, hl, hchecked, hheld⟩ | ⟨path', stop, hwalk', hsound', hstop', hends⟩
  · have hold := (mem_linksOf.mp hl).1.other_eq
    exact absurd (hold.symm.trans hheld) (hlinked hl hchecked)
  obtain ⟨ancestry', rfl⟩ := not_forked hstrangers hwalk hsound' hstop'
  have hstopped := @stoppedResult_unsuperseded c (call.over (call.records ++ extra)) hunsuperseded
    path' ancestry'
  have hcomparable := @walks_comparable (backward c call)
    (backward c (call.over (call.records ++ extra))) (rootedAt c.toCrypto call) call.held
    (fun path l l' h h' => stepBack_agree h h') _ _ _ _ _ _ _ _ rfl hwalk hwalk'
  dsimp only at hends
  rw [hstopped, ← resolve_input] at hends
  refine ⟨_, Returns.of_some hends, rfl, ?_, fun id hid enrolled retired => ?_⟩
  · rw [hresolved.chain]
    exact hcomparable
  · rw [hresolved.chain]
    have hv := @verifyHostRoster_usable c.toCrypto enrolled retired _ _ _ _
      (hresolved.sound.usable hid)
    have hv' := @verifyHostRoster_usable c.toCrypto enrolled retired _ _ _ _ (hsound'.usable hid)
    refine ⟨_, _, hv, hv', ?_⟩
    rcases hcomparable with hsuffix | hsuffix
    · exact sameActive_suffix hsuffix (cons_ne_nil _ _) hv hv'
    · exact (sameActive_suffix hsuffix (cons_ne_nil _ _) hv' hv).symm

/-- Three keys, and the signatures they make: each signs with its own bytes twice. -/
def keyOf (digit : Char) : Text := toText (List.replicate 64 digit)

def toyCrypto : ChainCrypto where
  toCrypto := macMiniCrypto
  verifyBySuite _ signature key := signature.data == key.data ++ key.data

/-- The rotation of a key to another, signed by both. -/
def rotation (old new : Char) : JsValue :=
  .object [(txt "suite", .string KEY_SUCCESSION_SUITE), (txt "old_public_key", .string (keyOf old)),
    (txt "new_public_key", .string (keyOf new)),
    (txt "timestamp", .number (.decimal ⟨['1'], isNumberText_one⟩)),
    (txt "old_key_signature", .string (keyOf old ++ keyOf old)),
    (txt "new_key_signature", .string (keyOf new ++ keyOf new))]

def oneRotation : Call where
  motebitId := txt "m-1"
  held := keyOf 'c'
  guardianKey := none
  records := [rotation 'b' 'c']
  motebit_ne := by decide
  held_hex := by decide
  guardian_hex := nofun

theorem oneRotation_resolves : (match resolveRosterKeyChain toyCrypto oneRotation.input 4 with
    | some (.ok _) => true
    | _ => false) = true := by decide +kernel

theorem strangers_change_no_active_older :
    ∃ result result', resolveRosterKeyChain toyCrypto oneRotation.input 4 = some (.ok result) ∧
      Returns toyCrypto (oneRotation.over [rotation 'b' 'c', rotation 'a' 'b', .null])
        (.ok result') ∧
      (result'.chain <:+ result.chain ∨ result.chain <:+ result'.chain) := by
  have hstrangers : Strangers toyCrypto oneRotation [rotation 'a' 'b', .null] := by
    have hkeys : ([rotation 'a' 'b', .null].filterMap normalize).all (fun r =>
        r.new_public_key ≠ keyOf 'c' && r.old_public_key ≠ keyOf 'c') = true := by decide +kernel
    rintro r ⟨value, hvalue, hr⟩
    have hboth := all_eq_true.mp hkeys r (mem_filterMap.mpr ⟨value, hvalue, hr⟩)
    rw [Bool.and_eq_true, decide_eq_true_eq, decide_eq_true_eq] at hboth
    refine ⟨?_, fun _ h => by cases h⟩
    rintro (⟨hnew, -⟩ | ⟨signature, -, hold, -⟩)
    · exact hboth.1 hnew
    · exact hboth.2 hold
  have hresolves := oneRotation_resolves
  cases hresult : resolveRosterKeyChain toyCrypto oneRotation.input 4 with
  | none =>
    rw [hresult] at hresolves
    cases hresolves
  | some result =>
    cases result with
    | ok result =>
      obtain ⟨result', hreturns, -, hsuffix, -⟩ := strangers_change_no_active hstrangers hresult
      exact ⟨result, result', rfl, hreturns, hsuffix⟩
    | refused | malformed_input =>
      rw [hresult] at hresolves
      cases hresolves

end Motebit.Roster
