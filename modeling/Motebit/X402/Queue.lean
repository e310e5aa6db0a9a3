/-
  Motebit.X402.Queue — THE RECONCILER'S QUEUE IS STARVATION-FREE.

  A queue stamp is past the key of every queued record, so that what is created or visited
  after a record sorts after it.  Only the records that already had a smaller key can be
  selected before it: its rivals.  The rivals of a waiting record only become fewer, and a
  complete run that does not select it takes `limit` of them away.

  Main results: `rivals_subset`, `pass_decreases`, `queue_starvation_free`.
-/

import Motebit.X402.Safety

namespace Motebit.X402

open Motebit.Lib List
open Motebit.Lib.Protocol

variable {chain : Chain} {s s' s₁ : Store} {r r' : Record} {key : String × String} {status : Status}
  {queueKey : Nat}

/-! ## §1. Records over time -/

/-- The steps of the system, from one store the invariant holds in to another. -/
abbrev Path (chain : Chain) : Store → Store → Prop :=
  Relation.ReflTransGen ((protocol chain False).Link 0)

theorem Link.moves (h : (protocol chain False).Link 0 s s') : Moves s s' := by
  obtain ⟨hi, -, hguar | ⟨u, -, hguar⟩ | henv⟩ := h
  · exact hguar
  · exact hguar
  · exact (Inv.env hi henv).2

/-- What becomes of a record: its intent stays, its status advances, and while it is queued
    its key does not sink. -/
structure Later (r r' : Record) : Prop where
  intent : r'.intent = r.intent
  status : Advances r.status r'.status
  queueKey : r'.queued = true → r.queueKey ≤ r'.queueKey

theorem queued_of_advances {a b : Record} (h : Advances a.status b.status)
    (hb : b.queued = true) : a.queued = true := by
  unfold Record.queued at hb ⊢
  rw [bne_iff_ne] at hb ⊢
  rcases h with heq | hcred | ⟨hpending, -⟩
  · rw [heq]
    exact hb
  · exact absurd hcred hb
  · rw [hpending]
    decide

theorem Advances.trans {a b c : Status} (h : Advances a b) (h' : Advances b c) : Advances a c := by
  rcases h' with rfl | hcred | ⟨hb, hc⟩
  · exact h
  · exact .inr (.inl hcred)
  · rcases h with rfl | hcred | ⟨-, hf⟩
    · exact .inr (.inr ⟨hb, hc⟩)
    · rw [hcred] at hb
      cases hb
    · rw [hf] at hb
      cases hb

theorem Later.trans {r'' : Record} (h : Later r r') (h' : Later r' r'') : Later r r'' where
  intent := h'.intent.trans h.intent
  status := h.status.trans h'.status
  queueKey hq :=
    Nat.le_trans (h.queueKey (queued_of_advances h'.status hq)) (h'.queueKey hq)

theorem Link.later (h : (protocol chain False).Link 0 s s') (hr : r ∈ s.records) :
    ∃ r' ∈ s'.records, Later r r' := by
  have hi : Inv chain False s := h.1
  obtain ⟨r', hr', hintent, hadv, -⟩ := (Link.moves h).kept r hr
  refine ⟨r', hr', hintent, hadv, fun hq => ?_⟩
  rcases (Link.moves h).keys r' hr' with ⟨r₀, hr₀, hintent₀, -, hsame⟩ | hpast
  · have heq : r₀ = r := hi.unique hr₀ hr (congrArg Intent.key (hintent₀.trans hintent))
    rw [hsame, heq]
  · exact Nat.le_of_lt (hpast r hr (queued_of_advances hadv hq))

theorem Path.later (h : Path chain s s') (hr : r ∈ s.records) : ∃ r' ∈ s'.records, Later r r' := by
  induction h with
  | refl => exact ⟨r, hr, rfl, .refl _, fun _ => Nat.le_refl _⟩
  | tail _ hlink ih =>
    obtain ⟨r₁, hr₁, hl₁⟩ := ih
    obtain ⟨r', hr', hl'⟩ := Link.later hlink hr₁
    exact ⟨r', hr', hl₁.trans hl'⟩

theorem Path.inv (h : Path chain s s') (hi : Inv chain False s) : Inv chain False s' := by
  induction h with
  | refl => exact hi
  | tail _ hlink => exact hlink.2.1

/-! ## §2. Waiting, and the rivals -/

structure Waits (key : String × String) (status : Status) (queueKey : Nat) (s : Store) : Prop where
  queued : status ≠ .credited
  record : ∃ r ∈ s.records, r.key = key ∧ r.status = status ∧ r.queueKey = queueKey

/-- A pending record is selected among the pending ones, a failed one among the failed ones,
    and a pending record may fail. -/
def Status.competes (status other : Status) : Bool := other == .pending || other == status

/-- The records that can be selected before one with this status and queue key. -/
def Store.rivals (s : Store) (status : Status) (queueKey : Nat) : List (String × String) :=
  (s.records.filter fun r => status.competes r.status && decide (r.queueKey < queueKey)).map
    Record.key

theorem mem_rivals {s : Store} {k : String × String} :
    k ∈ s.rivals status queueKey ↔
      ∃ r ∈ s.records, r.key = k ∧ status.competes r.status = true ∧ r.queueKey < queueKey := by
  unfold Store.rivals
  simp only [mem_map, mem_filter, Bool.and_eq_true, decide_eq_true_eq]
  constructor
  · rintro ⟨r, ⟨hr, hc, hlt⟩, hk⟩
    exact ⟨r, hr, hk, hc, hlt⟩
  · rintro ⟨r, hr, hk, hc, hlt⟩
    exact ⟨r, ⟨hr, hc, hlt⟩, hk⟩

theorem nodup_rivals (hi : Inv chain False s) (status : Status) (queueKey : Nat) :
    (s.rivals status queueKey).Nodup :=
  List.Nodup.sublist (List.Sublist.map _ filter_sublist) hi.keys

theorem Waits.between (hi : Inv chain False s) (h₁ : Path chain s s₁) (h₂ : Path chain s₁ s')
    (hw : Waits key status queueKey s) (hw' : Waits key status queueKey s') :
    Waits key status queueKey s₁ := by
  obtain ⟨hqueued, r, hr, hkey, hstatus, hq⟩ := hw
  obtain ⟨-, r₂, hr₂, hkey₂, hstatus₂, hq₂⟩ := hw'
  obtain ⟨r₁, hr₁, hl₁⟩ := h₁.later hr
  obtain ⟨r', hr', hl'⟩ := h₂.later hr₁
  have hkey₁ : r₁.key = key := (congrArg Intent.key hl₁.intent).trans hkey
  have hsame : r' = r₂ :=
    ((h₂.inv (h₁.inv hi)).unique hr' hr₂
      ((congrArg Intent.key hl'.intent).trans (hkey₁.trans hkey₂.symm)))
  subst hsame
  have hqueued₂ : r'.queued = true := bne_iff_ne.mpr (hstatus₂ ▸ hqueued)
  have hqueued₁ := queued_of_advances hl'.status hqueued₂
  refine ⟨hqueued, r₁, hr₁, hkey₁, ?_, ?_⟩
  · -- a status that advances and comes back did not move
    have hadv := hl₁.status
    have hadv' := hl'.status
    rw [hstatus] at hadv
    rw [hstatus₂] at hadv'
    rcases hadv with heq | hcred | ⟨hp, hf⟩
    · exact heq.symm
    · rw [Record.queued, hcred] at hqueued₁
      cases hqueued₁
    · rw [hp] at hadv' ⊢
      rw [hf] at hadv'
      rcases hadv' with heq | heq | ⟨heq, -⟩ <;> cases heq
  · have hle₁ := hl₁.queueKey hqueued₁
    have hle₂ := hl'.queueKey hqueued₂
    omega

theorem competes_of_advances {a b : Status} (hqueued : status ≠ .credited)
    (h : Advances a b) (hc : status.competes b = true) : status.competes a = true := by
  unfold Status.competes at hc ⊢
  rw [Bool.or_eq_true, beq_iff_eq, beq_iff_eq] at hc ⊢
  rcases h with rfl | hcred | ⟨hp, -⟩
  · exact hc
  · rw [hcred] at hc
    rcases hc with hc | hc
    · cases hc
    · exact absurd hc.symm hqueued
  · exact .inl hp

/-- **No new rivals**: one step. -/
theorem Link.rivals_subset (h : (protocol chain False).Link 0 s s')
    (hw : Waits key status queueKey s) : s'.rivals status queueKey ⊆ s.rivals status queueKey := by
  obtain ⟨hqueued, x, hx, -, hstatus, hq⟩ := hw
  intro k hk
  obtain ⟨r', hr', hkey, hc, hlt⟩ := mem_rivals.mp hk
  rcases (Link.moves h).keys r' hr' with ⟨r, hr, hintent, hadv, hsame⟩ | hpast
  · exact mem_rivals.mpr ⟨r, hr, (congrArg Intent.key hintent).trans hkey,
      competes_of_advances hqueued hadv hc, by omega⟩
  · -- a new key is past the waiting record's
    have hxq : x.queued = true := bne_iff_ne.mpr (hstatus ▸ hqueued)
    have hover := hpast x hx hxq
    omega

/-- **No new rivals** while the record waits. -/
theorem rivals_subset (hi : Inv chain False s) (h : Path chain s s')
    (hw : Waits key status queueKey s) (hw' : Waits key status queueKey s') :
    s'.rivals status queueKey ⊆ s.rivals status queueKey := by
  induction h with
  | refl => exact fun _ hk => hk
  | tail hpath hlink ih =>
    have hmid := hw.between hi hpath (.single hlink) hw'
    exact fun k hk => ih hmid (Link.rivals_subset hlink hmid hk)

variable {visited : String × String}

theorem visited_not_rival {changed : Bool}
    (hw : Waits key status queueKey s) (hv : s.visit visited = .ok (changed, s')) :
    visited ∉ s'.rivals status queueKey := by
  obtain ⟨hqueued, x, hx, -, hstatus, hq⟩ := hw
  intro hk
  obtain ⟨r', hr', hkey, -, hlt⟩ := mem_rivals.mp hk
  rw [updateRecords_ok hv] at hr'
  obtain ⟨r, hr, rfl⟩ := mem_map.mp hr'
  have hxq : x.queued = true := bne_iff_ne.mpr (hstatus ▸ hqueued)
  have hover := overtakes_nextStamp s x hx hxq
  by_cases hsel : (r.key == visited) = true
  · rw [if_pos hsel] at hlt
    change s.nextStamp < queueKey at hlt
    omega
  · rw [if_neg hsel] at hkey
    exact hsel (beq_iff_eq.mpr hkey)

/-! ## §3. Selection -/

theorem before_trans (a b c : Record) (h : a.before b = true) (h' : b.before c = true) :
    a.before c = true := by
  simp only [Record.before, Bool.or_eq_true, Bool.and_eq_true, decide_eq_true_eq, beq_iff_eq] at *
  omega

theorem before_total (a b : Record) : (a.before b || b.before a) = true := by
  simp only [Record.before, Bool.or_eq_true, Bool.and_eq_true, decide_eq_true_eq, beq_iff_eq]
  omega

variable {limit : Nat} {p : ScanParams} {tr : List (Σ r, Resp r)} {eligible : Record → Bool}

/-- **A selection that passes over an eligible record** is full, and of smaller keys. -/
theorem selectFirst_before {x : Record} (hi : Inv chain False s)
    (hqueued : ∀ r, eligible r = true → r.queued = true) (hx : x ∈ s.records)
    (he : eligible x = true) (hnot : x ∉ selectFirst eligible limit s.records) :
    (selectFirst eligible limit s.records).length = limit ∧
    ∀ r ∈ selectFirst eligible limit s.records, r.queueKey < x.queueKey := by
  have hsorted := pairwise_mergeSort before_trans before_total (s.records.filter eligible)
  have hxin : x ∈ (s.records.filter eligible).mergeSort Record.before :=
    mem_mergeSort.mpr (mem_filter.mpr ⟨hx, he⟩)
  have hmem : ∀ r ∈ selectFirst eligible limit s.records, r ∈ s.records ∧ eligible r = true :=
    fun r hr => mem_selectFirst hr
  unfold selectFirst at hnot hmem ⊢
  generalize (s.records.filter eligible).mergeSort Record.before = sorted at *
  rw [← take_append_drop limit sorted, mem_append] at hxin
  have hdrop : x ∈ sorted.drop limit := hxin.resolve_left hnot
  constructor
  · rw [length_take]
    by_contra hlen
    have hall : sorted.length ≤ limit := by omega
    rw [drop_eq_nil_of_le hall] at hdrop
    cases hdrop
  · intro r hr
    rw [← take_append_drop limit sorted, pairwise_append] at hsorted
    have hbefore := hsorted.2.2 r hr x hdrop
    obtain ⟨hrin, hre⟩ := hmem r hr
    simp only [Record.before, Bool.or_eq_true, Bool.and_eq_true, decide_eq_true_eq,
      beq_iff_eq] at hbefore
    rcases hbefore with hlt | ⟨heq, -⟩
    · exact hlt
    · -- queued records do not share a key
      have hkey := hi.queue r hrin x hx (hqueued r hre) (hqueued x he) heq
      rw [hi.unique hrin hx hkey] at hr
      exact absurd hr hnot

theorem nodup_selectFirst (hi : Inv chain False s) (eligible : Record → Bool) (limit : Nat) :
    ((selectFirst eligible limit s.records).map Record.key).Nodup := by
  have hfilter : ((s.records.filter eligible).map Record.key).Nodup :=
    List.Nodup.sublist (List.Sublist.map _ filter_sublist) hi.keys
  have hsorted : (((s.records.filter eligible).mergeSort Record.before).map Record.key).Nodup :=
    ((mergeSort_perm _ _).map _).nodup_iff.mpr hfilter
  exact List.Nodup.sublist (List.Sublist.map _ (take_sublist _ _)) hsorted

/-- The WHERE clause a record is selected by in its status. -/
def Record.eligibleIn (p : ScanParams) (status : Status) (headTs : Nat) (r : Record) : Bool :=
  match status with
  | .pending => r.pendingEligible headTs
  | .failed => r.failedEligible p headTs
  | .credited => false

theorem status_of_eligibleIn {headTs : Nat} (h : r.eligibleIn p status headTs = true) :
    r.status = status := by
  cases status with
  | pending =>
    exact beq_iff_eq.mp (Bool.and_eq_true_iff.mp h).1
  | failed =>
    exact beq_iff_eq.mp (Bool.and_eq_true_iff.mp (Bool.and_eq_true_iff.mp h).1).1
  | credited => cases h

/-! ## §4. A complete run -/

/-- The reconciler's world with all other threads as the environment. -/
abbrev beside (chain : Chain) : World Store Req Resp := (world chain False).alongside

theorem beside_env (h : (beside chain).env s s') :
    Inv chain False s' ∧ (protocol chain False).Rely 0 s s' := by
  have hver : Verified (protocol chain False) := verified fun hfalse => hfalse.elim
  obtain ⟨c, c', hreach, hstep, rfl, rfl⟩ := h
  refine ⟨sound hver (hreach.step hstep), ?_⟩
  have hother : ∀ {a b}, Moves a b → (protocol chain False).Rely 0 a b :=
    fun hm => .inl ⟨1, by decide, hm⟩
  rcases (Holds.of_reachable hver hreach).moved hstep with heq | ⟨t, hguar⟩ | henv | hcrash
  · rw [heq]
    exact hother (.refl _)
  · exact hother hguar
  · exact .inr henv
  · rw [hcrash]
    exact hother (.refl _)

theorem drift_path (hi : Inv chain False s) (h : (beside chain).Drift s s') : Path chain s s' := by
  induction h with
  | refl => exact .refl
  | tail _ henv ih =>
    obtain ⟨hinv, hrely⟩ := beside_env henv
    exact ih.tail ⟨ih.inv hi, hinv, .inr hrely⟩

theorem ensures_path {α ε : Type} {x : Task Store Req Resp ε α} {L : Store → Prop}
    {Q : α → Store → Prop} {E : ε → Store → Prop} {res : Except ε α}
    (hx : (protocol chain False).Ensures 0 x L Q E) (hst : (protocol chain False).Stable 0 L)
    (hi : Inv chain False s) (hl : L s) (hr : Runs (beside chain) x.run s tr res s') :
    Path chain s s' := by
  have hsafe : (protocol chain False).Safe 0 x.run L (Post Q E) := hx
  have henv : ∀ s s', (protocol chain False).Inv s → (beside chain).env s s' →
      (protocol chain False).Inv s' ∧ (protocol chain False).Rely 0 s s' :=
    fun _ _ _ he => beside_env he
  have hanswer : ∀ s r a s', (beside chain).answer s r a s' →
      (world chain False).answer s r a s' := fun _ _ _ _ ha => ha
  exact (hsafe.runs hanswer henv hr hst hi hl).2.2

/-- In the run from `s` to `s'` the record with this key was stamped. -/
def Visited (chain : Chain) (visited : String × String) (s s' : Store) : Prop :=
  ∃ a b changed, Path chain s a ∧ a.visit visited = .ok (changed, b) ∧
    Inv chain False b ∧ Path chain b s'

variable {head : Head}

/-- **One visit** stamps its record first. -/
theorem reconcile_visits {rec : Record} {decision : ReconcileDecision}
    (hi : Inv chain False s) (hhead : head.timestamp = chain.timestamp head.number)
    (hk : Known rec.intent s)
    (hr : Runs (beside chain) (reconcileX402Settlement p rec false (some head)).run s tr
      (.ok decision) s') : Visited chain rec.key s s' := by
  unfold reconcileX402Settlement at hr
  obtain ⟨changed₀, s₂, tr₁, tr₂, hstamp, hrest, -⟩ | ⟨e, -, herr⟩ := runs_bind hr
  · obtain ⟨a, hdrift, -, ⟨changed, b, hok, -, hdrift'⟩ | ⟨e, -, herr, -⟩⟩ := runs_txn hstamp
    · have hpath := drift_path hi hdrift
      obtain ⟨hinv, hm⟩ := (hpath.inv hi).visit hok
      have hafter : Path chain b s₂ := drift_path hinv hdrift'
      -- what follows the stamp is verified
      have hknown : Known rec.intent s₂ := by
        have hstart : Path chain s b := hpath.tail ⟨hpath.inv hi, hinv, .inl hm⟩
        obtain ⟨r, hr, hintent⟩ := hk
        obtain ⟨r', hr', hl⟩ := Path.later (hstart.trans hafter) hr
        exact ⟨r', hr', hl.intent.trans hintent⟩
      have hnever : SnapshotOk chain False rec := fun hfalse => hfalse.elim
      have hmono : False → Monotone chain.timestamp := fun hfalse => hfalse.elim
      have hbody := visitBody_yields (t := 0) hmono p false
        (fun h hh => by cases hh; exact hhead : ∀ h, some head = some h → _) hnever
      have hpath' := ensures_path hbody (stable fun _ _ hm hl => hl.moves hm) (hafter.inv hinv)
        hknown hrest
      exact ⟨a, b, changed, hpath, hok, hinv, hafter.trans hpath'⟩
    · cases herr
  · cases herr

theorem Visited.path (h : Visited chain visited s s')
    (hi : Inv chain False s) : Path chain s s' := by
  obtain ⟨a, b, changed, hpath, hok, hinv, hpath'⟩ := h
  have hm := ((hpath.inv hi).visit hok).2
  exact (hpath.tail ⟨hpath.inv hi, hinv, .inl hm⟩).trans hpath'

/-- **The loop of a complete run** stamps every candidate. -/
theorem visitAll_visits (hhead : head.timestamp = chain.timestamp head.number)
    {recs : List Record} {result result' : ReconcileResult} (hi : Inv chain False s)
    (hk : ∀ rec ∈ recs, Known rec.intent s)
    (hr : Runs (beside chain) (visitAll p head recs result).run s tr (.ok result') s') :
    Path chain s s' ∧ ∀ rec ∈ recs, Visited chain rec.key s s' := by
  induction recs generalizing s result tr with
  | nil =>
    obtain ⟨-, -, hdrift⟩ := runs_pure hr
    exact ⟨drift_path hi hdrift, fun rec hrec => by cases hrec⟩
  | cons rec recs ih =>
    obtain ⟨decision, s₁, tr₁, tr₂, hone, hrest, -⟩ | ⟨e, -, herr⟩ := runs_bind hr
    · have hvisited := reconcile_visits hi hhead (hk rec mem_cons_self) hone
      have hpath := hvisited.path hi
      have hk₁ : ∀ rec ∈ recs, Known rec.intent s₁ := by
        intro rec' hrec'
        obtain ⟨r, hr, hintent⟩ := hk rec' (mem_cons_of_mem _ hrec')
        obtain ⟨r', hr', hl⟩ := hpath.later hr
        exact ⟨r', hr', hl.intent.trans hintent⟩
      obtain ⟨hpath', hothers⟩ := ih (hpath.inv hi) hk₁ hrest
      refine ⟨hpath.trans hpath', fun rec' hrec' => ?_⟩
      rcases mem_cons.mp hrec' with rfl | hrec'
      · obtain ⟨a, b, changed, h₁, hok, hinv, h₂⟩ := hvisited
        exact ⟨a, b, changed, h₁, hok, hinv, h₂.trans hpath'⟩
      · obtain ⟨a, b, changed, h₁, hok, hinv, h₂⟩ := hothers rec' hrec'
        exact ⟨a, b, changed, hpath.trans h₁, hok, hinv, h₂⟩
    · cases herr

/-- A complete run under the head it read: it stamps unobserved failures, selects in the store
    `sel`, and visits what it selected. -/
structure Pass (chain : Chain) (p : ScanParams) (limit : Nat) (head : Head) (s sel s' : Store) :
    Prop where
  trueHead : head.timestamp = chain.timestamp head.number
  stamp : ∃ changed, Runs (beside chain) (Task.txn fun s =>
    s.stampUnobservedFailures head.timestamp : X402Task Bool).run s [] (.ok changed) sel
  visits : ∃ tr result, Runs (beside chain) (visitAll p head
    ((sel.selectCandidates p head.timestamp limit).1 ++
      (sel.selectCandidates p head.timestamp limit).2) ⟨0, 0, 0, 0⟩).run sel tr (.ok result) s'

theorem Pass.path {sel : Store} (h : Pass chain p limit head s sel s')
    (hi : Inv chain False s) : Path chain s sel ∧ Path chain sel s' ∧
    ∀ rec ∈ (sel.selectCandidates p head.timestamp limit).1 ++
      (sel.selectCandidates p head.timestamp limit).2, Visited chain rec.key sel s' := by
  obtain ⟨hhead, ⟨changed, hstamp⟩, tr, result, hvisits⟩ := h
  obtain ⟨a, hdrift, -, ⟨changed', b, hok, -, hdrift'⟩ | ⟨e, -, herr, -⟩⟩ := runs_txn hstamp
  · have hpath := drift_path hi hdrift
    obtain ⟨hinv, hrw⟩ := (hpath.inv hi).stampUnobservedFailures hok
    have hsel : Path chain s sel :=
      (hpath.tail ⟨hpath.inv hi, hinv, .inl hrw.moves⟩).trans (drift_path hinv hdrift')
    have hknown : ∀ rec ∈ (sel.selectCandidates p head.timestamp limit).1 ++
        (sel.selectCandidates p head.timestamp limit).2, Known rec.intent sel := by
      intro rec hrec
      rcases mem_append.mp hrec with h | h
      · exact ⟨rec, (mem_selectFirst h).1, rfl⟩
      · exact ⟨rec, (mem_selectFirst h).1, rfl⟩
    exact ⟨hsel, visitAll_visits hhead (hsel.inv hi) hknown hvisits⟩
  · cases herr

/-- **A pass that leaves an eligible record waiting takes `limit` of its rivals away.** -/
theorem pass_decreases {sel : Store} (hi : Inv chain False s)
    (hpass : Pass chain p limit head s sel s') (hw : Waits key status queueKey s)
    (hw' : Waits key status queueKey s')
    (heligible : ∃ r ∈ sel.records, r.key = key ∧ r.eligibleIn p status head.timestamp = true) :
    (s'.rivals status queueKey).length + limit ≤ (s.rivals status queueKey).length := by
  obtain ⟨hpath₁, hpath₂, hall⟩ := hpass.path hi
  have hisel := hpath₁.inv hi
  have hwsel := hw.between hi hpath₁ hpath₂ hw'
  -- in its own status's selection the record comes after all that were selected
  let mine := selectFirst (fun r => r.eligibleIn p status head.timestamp) limit sel.records
  have hmine : ∀ r ∈ mine, Visited chain r.key sel s' := by
    intro r hr
    refine hall r (mem_append.mpr ?_)
    cases status with
    | pending => exact .inl hr
    | failed => exact .inr hr
    | credited => exact absurd rfl hw.queued
  have hgone : ∀ r ∈ mine, r.key ∉ s'.rivals status queueKey := by
    intro r hr hin
    obtain ⟨a, b, changed, h₁, hok, hinv, h₂⟩ := hmine r hr
    have hm := ((h₁.inv hisel).visit hok).2
    have hab : Path chain sel b := h₁.tail ⟨h₁.inv hisel, hinv, .inl hm⟩
    have hwb := hwsel.between hisel hab h₂ hw'
    have hwa := hwsel.between hisel h₁ ((Relation.ReflTransGen.single
      ⟨h₁.inv hisel, hinv, .inl hm⟩).trans h₂) hw'
    exact visited_not_rival hwa hok (rivals_subset hinv h₂ hwb hw' hin)
  obtain ⟨x, hx, hxkey, hxe⟩ := heligible
  obtain ⟨-, x₀, hx₀, hx₀key, -, hx₀q⟩ := hwsel
  have hsame : x = x₀ := hisel.unique hx hx₀ (hxkey.trans hx₀key.symm)
  subst hsame
  have hnot : x ∉ mine := by
    -- a visit of the record itself would give it another key
    intro hin
    obtain ⟨a, b, changed, h₁, hok, hinv, h₂⟩ := hmine x hin
    have hm := ((h₁.inv hisel).visit hok).2
    have hwsel' : Waits key status queueKey sel :=
      hw.between hi hpath₁ hpath₂ hw'
    have hlink : (protocol chain False).Link 0 a b := ⟨h₁.inv hisel, hinv, .inl hm⟩
    have hwa := hwsel'.between hisel h₁ ((Relation.ReflTransGen.single hlink).trans h₂) hw'
    have hwb := hwsel'.between hisel (h₁.tail hlink) h₂ hw'
    obtain ⟨-, y, hy, hykey, -, hyq⟩ := hwb
    have hover := overtakes_nextStamp a
    obtain ⟨hq, z, hz, -, hzst, hzq⟩ := hwa
    have hlt := hover z hz (bne_iff_ne.mpr (hzst ▸ hq))
    rw [updateRecords_ok hok] at hy
    obtain ⟨y₀, -, rfl⟩ := mem_map.mp hy
    by_cases hsel : (y₀.key == x.key) = true
    · rw [if_pos hsel] at hyq
      change a.nextStamp = queueKey at hyq
      omega
    · rw [if_neg hsel] at hykey
      exact hsel (beq_iff_eq.mpr (hykey.trans hxkey.symm))
  have hqueued : ∀ r : Record, r.eligibleIn p status head.timestamp = true → r.queued = true := by
    intro r he
    exact bne_iff_ne.mpr (status_of_eligibleIn he ▸ hw.queued)
  obtain ⟨hlen, hsmall⟩ := selectFirst_before hisel hqueued hx hxe hnot
  have hrivals : mine.map Record.key ⊆ s.rivals status queueKey := by
    intro k hk
    obtain ⟨r, hr, rfl⟩ := mem_map.mp hk
    obtain ⟨hrin, hre⟩ := mem_selectFirst hr
    refine rivals_subset hi hpath₁ hw (hw.between hi hpath₁ hpath₂ hw') (mem_rivals.mpr
      ⟨r, hrin, rfl, ?_, hx₀q ▸ hsmall r hr⟩)
    unfold Status.competes
    rw [status_of_eligibleIn hre, beq_self_eq_true, Bool.or_true]
  have hnodup : (mine.map Record.key ++ s'.rivals status queueKey).Nodup := by
    refine nodup_append.mpr ⟨nodup_selectFirst hisel _ _,
      nodup_rivals (hpath₂.inv hisel) _ _, fun k hk k' hk' heq => ?_⟩
    obtain ⟨r, hr, rfl⟩ := mem_map.mp hk
    exact hgone r hr (heq ▸ hk')
  have hsub : mine.map Record.key ++ s'.rivals status queueKey ⊆ s.rivals status queueKey := by
    intro k hk
    rcases mem_append.mp hk with hk | hk
    · exact hrivals hk
    · exact rivals_subset hi (hpath₁.trans hpath₂) hw hw' hk
  have hle := hnodup.length_le_of_subset hsub
  have hfull : mine.length = limit := hlen
  rw [length_append, length_map, hfull] at hle
  omega

/-! ## §5. The bound -/

/-- So many complete runs of one process, one after another, at each of whose selections the
    record is eligible. -/
inductive Passes (chain : Chain) (p : ScanParams) (limit : Nat) (key : String × String)
    (status : Status) : Nat → Store → Store → Prop
  | none (s : Store) : Passes chain p limit key status 0 s s
  | more {n : Nat} {s s₁ sel s₂ : Store} {head : Head} :
      Passes chain p limit key status n s s₁ → Pass chain p limit head s₁ sel s₂ →
      (∃ r ∈ sel.records, r.key = key ∧ r.eligibleIn p status head.timestamp = true) →
      Passes chain p limit key status (n + 1) s s₂

theorem Passes.path {n : Nat} (hi : Inv chain False s) (h : Passes chain p limit key status n s s') :
    Path chain s s' := by
  induction h with
  | none => exact .refl
  | more _ hpass _ ih =>
    obtain ⟨hsel, hrest, -⟩ := hpass.path ((ih hi).inv hi)
    exact (ih hi).trans (hsel.trans hrest)

theorem passes_decrease {n : Nat} (hi : Inv chain False s)
    (h : Passes chain p limit key status n s s') (hw : Waits key status queueKey s)
    (hw' : Waits key status queueKey s') :
    (s'.rivals status queueKey).length + n * limit ≤ (s.rivals status queueKey).length := by
  induction h with
  | none => omega
  | @more n s s₁ sel s₂ head hpasses hpass heligible ih =>
    have hpath := hpasses.path hi
    have hi₁ := hpath.inv hi
    obtain ⟨hsel, hvisits, -⟩ := hpass.path hi₁
    have hmid := hw.between hi hpath (hsel.trans hvisits) hw'
    have hrest := ih hi hw hmid
    have hone := pass_decreases hi₁ hpass hmid hw' heligible
    rw [Nat.add_mul, Nat.one_mul]
    omega

/-- **The queue is starvation-free.**  Whatever the clock does, a key that a step writes is
    past every queued key; and a record whose key is not written again while it stays eligible
    is passed over by at most as many complete runs as its rivals fill. -/
theorem queue_starvation_free {c : Config Store Req Resp}
    (hreach : (world chain False).Reachable c) :
    (∀ c', (world chain False).Step c c' → ∀ r' ∈ c'.store.records,
      (∃ r ∈ c.store.records, r.intent = r'.intent ∧ r'.queueKey = r.queueKey) ∨
      c.store.Overtakes r'.queueKey) ∧
    ∀ (p : ScanParams) (limit : Nat) (r : Record) (n : Nat) (s' : Store), 0 < limit →
      r ∈ c.store.records → r.status ≠ .credited →
      Passes chain p limit r.key r.status n c.store s' →
      Waits r.key r.status r.queueKey s' →
      n ≤ (c.store.rivals r.status r.queueKey).length / limit := by
  have hver : Verified (protocol chain False) := verified fun hfalse => hfalse.elim
  have hinv : Inv chain False c.store := sound hver hreach
  constructor
  · intro c' hstep r' hr'
    have henv : (beside chain).env c.store c'.store := ⟨c, c', hreach, hstep, rfl, rfl⟩
    obtain ⟨hinv', hrely⟩ := beside_env henv
    rcases (Link.moves ⟨hinv, hinv', .inr hrely⟩).keys r' hr' with ⟨r, hr, hi, -, hq⟩ | hpast
    · exact .inl ⟨r, hr, hi, hq⟩
    · exact .inr hpast
  · intro p limit r n s' hlimit hr hstatus hpasses hw'
    have hle := passes_decrease hinv hpasses ⟨hstatus, r, hr, rfl, rfl, rfl⟩ hw'
    rw [Nat.le_div_iff_mul_le hlimit]
    omega

/-! ### Records that become eligible later -/

/-- Two more payments. -/
def firstIntent : Intent :=
  { sampleIntent with
    nonce := "0xaaaaaaaaaaaaaaaaaaaaaaaaaaaaaaaaaaaaaaaaaaaaaaaaaaaaaaaaaaaaaaaa"
    nonce_word := by decide }

def secondIntent : Intent :=
  { sampleIntent with
    nonce := "0xbbbbbbbbbbbbbbbbbbbbbbbbbbbbbbbbbbbbbbbbbbbbbbbbbbbbbbbbbbbbbbbb"
    nonce_word := by decide }

/-- A record after so many unreadable visits. -/
def unread (i : Intent) (created stamp backoffs next : Nat) : Record :=
  { i.record created with
    lastCheckedAt := some stamp, visitBackoffs := backoffs, nextVisitHeadTs := some next }

def holding (records : List Record) : Store := { sampleStore with records := records }

/-- A read that fails. -/
def unreadable : List (Σ r, Resp r) :=
  [⟨.getBlockTimestamp 0, (Except.error false : Except Bool Nat)⟩]

theorem selectFirst_of_sorted {records sorted : List Record}
    (limit : Nat) (hfilter : records.filter eligible = sorted)
    (hsorted : sorted.Pairwise fun a b => a.before b = true) :
    selectFirst eligible limit records = sorted.take limit := by
  unfold selectFirst
  rw [hfilter, mergeSort_of_pairwise hsorted]

section

variable {W : World Store Req Resp}
  (hW : ∀ s r a s', Answer sampleChain False s r a s' → W.answer s r a s')

include hW in
theorem first_visits : ∃ tr result, Runs W (visitAll x402Scan ⟨1000, 1000⟩
    [firstIntent.record 100, secondIntent.record 101] ⟨0, 0, 0, 0⟩).run
    (holding [firstIntent.record 100, secondIntent.record 101]) tr (.ok result)
    (holding [unread firstIntent 100 102 1 1600, unread secondIntent 101 103 1 1600]) := by
  have hfirst : Runs W
      (reconcileX402Settlement x402Scan (firstIntent.record 100) false (some ⟨1000, 1000⟩)).run
      (holding [firstIntent.record 100, secondIntent.record 101]) unreadable (.ok .readError)
      (holding [unread firstIntent 100 102 1 1600, secondIntent.record 101]) :=
    .atomic (.await (hW _ _ _ _ ⟨rfl, nofun⟩) (.atomic .done))
  have hsecond : Runs W
      (reconcileX402Settlement x402Scan (secondIntent.record 101) false (some ⟨1000, 1000⟩)).run
      (holding [unread firstIntent 100 102 1 1600, secondIntent.record 101]) unreadable
      (.ok .readError)
      (holding [unread firstIntent 100 102 1 1600, unread secondIntent 101 103 1 1600]) :=
    .atomic (.await (hW _ _ _ _ ⟨rfl, nofun⟩) (.atomic .done))
  exact ⟨_, _, hfirst.andThen (hsecond.andThen .done)⟩

theorem first_selection :
    (holding [firstIntent.record 100, secondIntent.record 101]).selectCandidates x402Scan 1000 2 =
      ([firstIntent.record 100, secondIntent.record 101], []) := by
  unfold Store.selectCandidates
  rw [selectFirst_of_sorted 2 (show _ = [firstIntent.record 100, secondIntent.record 101] from rfl)
    (by decide), selectFirst_of_sorted 2 (show _ = [] from rfl) .nil]
  rfl

end

/-- The last payment, recorded when both others are on their cadence. -/
def latecomer : Record := sampleIntent.record 104

/-- The three records then. -/
def cadenced : Store :=
  holding [unread firstIntent 100 102 1 1600, unread secondIntent 101 103 1 1600, latecomer]

theorem unknown_run (i : Intent) (s s' : Store) (hrec : s.recordIntent i = .ok (true, s')) :
    ∃ tr, Runs (world sampleChain False) (settle "eip155:8453" i).run s tr
      (.error (.outcomeUnknown false)) s' := by
  have hfirst : Runs (world sampleChain False)
      (Task.txn fun s => s.recordIntent i : X402Task Bool).run s [] (.ok true) s' := by
    have hdone : Runs (world sampleChain False) (.done (.ok true)) s' []
        (Except.ok true : Except Fault Bool) s' := .done
    refine .atomic ?_
    dsimp only
    rw [hrec]
    exact hdone
  have hrest : Runs (world sampleChain False)
      (Task.ask (Req.settlePayment i) : X402Task SettleAnswer).run s'
      [⟨.settlePayment i, SettleAnswer.threw "timeout"⟩] (.ok (.threw "timeout")) s' :=
    .await rfl .done
  exact ⟨_, hfirst.andThen (hrest.andThen .done)⟩

theorem cadenced_reachable : ∃ c, (world sampleChain False).Reachable c ∧ c.store = cadenced := by
  have hinit := World.Reachable.init (W := world sampleChain False) sampleStore
    ⟨rfl, .empty, forall_mem_nil _⟩
  obtain ⟨tr₁, hrun₁⟩ := unknown_run firstIntent sampleStore (holding [firstIntent.record 100]) rfl
  obtain ⟨c₁, hreach₁, hstore₁⟩ := Runs.reachable hinit (.inl ⟨_, _, rfl⟩) hrun₁.detach
  set held := holding [firstIntent.record 100, secondIntent.record 101]
  obtain ⟨tr₂, hrun₂⟩ := unknown_run secondIntent (holding [firstIntent.record 100]) held rfl
  rw [← hstore₁] at hrun₂
  obtain ⟨c₂, hreach₂, hstore₂⟩ := Runs.reachable hreach₁ (.inl ⟨_, _, rfl⟩) hrun₂.detach
  -- one run of limit 2 visits both under the head 1000
  obtain ⟨tr, result, hvisits⟩ := first_visits (W := world sampleChain False) fun _ _ _ _ ha => ha
  have hpending : ∃ tr, Runs (world sampleChain False)
      (reconcilePendingX402Settlements x402Scan 2).run c₂.store tr (.ok result)
      (holding [unread firstIntent 100 102 1 1600, unread secondIntent 101 103 1 1600]) := by
    rw [hstore₂]
    have hhead : Runs (world sampleChain False)
        (Task.ask Req.getConfirmedHead : X402Task (Except Bool Head)).run held
        [⟨.getConfirmedHead, (Except.ok ⟨1000, 1000⟩ : Except Bool Head)⟩]
        (.ok (.ok ⟨1000, 1000⟩)) held :=
      .await ⟨rfl, fun head h => by cases h; rfl⟩ .done
    have hstamp : Runs (world sampleChain False)
        (Task.txn fun s => s.stampUnobservedFailures 1000 : X402Task Bool).run held [] (.ok false)
        held := .atomic .done
    have hselect : Runs (world sampleChain False)
        (Task.act fun s => (s.selectCandidates x402Scan 1000 2, s) : X402Task _).run held []
        (.ok ([firstIntent.record 100, secondIntent.record 101], [])) held := by
      rw [← first_selection]
      exact .atomic .done
    exact ⟨_, hhead.andThen (hstamp.andThen (hselect.andThen hvisits))⟩
  obtain ⟨tr₃, hrun₃⟩ := hpending
  obtain ⟨c₃, hreach₃, hstore₃⟩ := Runs.reachable hreach₂ (.inr (.inl ⟨_, _, rfl⟩)) hrun₃.detach
  obtain ⟨tr₄, hrun₄⟩ := unknown_run sampleIntent c₃.store cadenced (by rw [hstore₃]; rfl)
  exact Runs.reachable hreach₃ (.inl ⟨_, _, rfl⟩) hrun₄.detach

/-- The store after the first of two runs of limit 1, at the time 2000. -/
def cadencedOnce : Store :=
  holding [unread firstIntent 100 105 2 5600, unread secondIntent 101 103 1 1600, latecomer]

def cadencedTwice : Store :=
  holding [unread firstIntent 100 105 2 5600, unread secondIntent 101 106 2 5600, latecomer]

theorem unread_pass {records : List Record} {rec : Record} {s' : Store}
    (hsorted : (holding records).selectCandidates x402Scan 2000 1 = ([rec], []))
    (hstamp : (holding records).stampUnobservedFailures 2000 = .ok (false, holding records))
    (hvisit : Runs (beside sampleChain)
      (reconcileX402Settlement x402Scan rec false (some ⟨2000, 2000⟩)).run (holding records)
      unreadable (.ok .readError) s') :
    Pass sampleChain x402Scan 1 ⟨2000, 2000⟩ (holding records) (holding records) s' := by
  refine ⟨rfl, ⟨false, ?_⟩, ?_⟩
  · have hdone : Runs (beside sampleChain) (.done (.ok false)) (holding records) []
        (Except.ok false : Except Fault Bool) (holding records) := .done
    refine .atomic ?_
    dsimp only
    rw [hstamp]
    exact hdone
  · rw [hsorted]
    exact ⟨_, _, hvisit.andThen .done⟩

theorem passes_over_latecomer :
    Passes sampleChain x402Scan 1 latecomer.key .pending 2 cadenced cadencedTwice := by
  have hfirst : cadenced.selectCandidates x402Scan 2000 1 =
      ([unread firstIntent 100 102 1 1600], []) := by
    unfold Store.selectCandidates
    rw [selectFirst_of_sorted 1 (show _ = cadenced.records from rfl) (by decide),
      selectFirst_of_sorted 1 (show _ = [] from rfl) .nil]
    rfl
  have hsecond : cadencedOnce.selectCandidates x402Scan 2000 1 =
      ([unread secondIntent 101 103 1 1600], []) := by
    unfold Store.selectCandidates
    rw [selectFirst_of_sorted 1
        (show _ = [unread secondIntent 101 103 1 1600, latecomer] from rfl) (by decide),
      selectFirst_of_sorted 1 (show _ = [] from rfl) .nil]
    rfl
  have hpass₁ : Pass sampleChain x402Scan 1 ⟨2000, 2000⟩ cadenced cadenced cadencedOnce :=
    unread_pass hfirst rfl (.atomic (.await ⟨rfl, nofun⟩ (.atomic .done)))
  have hpass₂ : Pass sampleChain x402Scan 1 ⟨2000, 2000⟩ cadencedOnce cadencedOnce cadencedTwice :=
    unread_pass hsecond rfl (.atomic (.await ⟨rfl, nofun⟩ (.atomic .done)))
  have heligible : latecomer.eligibleIn x402Scan .pending 2000 = true := rfl
  refine .more (.more (.none _) hpass₁ ⟨latecomer, ?_, rfl, heligible⟩) hpass₂
    ⟨latecomer, ?_, rfl, heligible⟩
  · exact mem_cons_of_mem _ (mem_cons_of_mem _ mem_cons_self)
  · exact mem_cons_of_mem _ (mem_cons_of_mem _ mem_cons_self)

theorem latecomer_waits : Waits latecomer.key latecomer.status latecomer.queueKey cadencedTwice :=
  ⟨by decide, latecomer, mem_cons_of_mem _ (mem_cons_of_mem _ mem_cons_self), rfl,
    rfl, rfl⟩

theorem queue_starvation_free_latecomer : ∃ c, (world sampleChain False).Reachable c ∧
    2 ≤ (c.store.rivals latecomer.status latecomer.queueKey).length / 1 := by
  obtain ⟨c, hreach, hstore⟩ := cadenced_reachable
  have hmem : latecomer ∈ c.store.records := by
    rw [hstore]
    exact mem_cons_of_mem _ (mem_cons_of_mem _ mem_cons_self)
  refine ⟨c, hreach, (queue_starvation_free hreach).2 x402Scan 1 latecomer 2 cadencedTwice
    (by decide) hmem (by decide) ?_ latecomer_waits⟩
  rw [hstore]
  exact passes_over_latecomer

/-- **Counting only the records that are eligible when the stamp is written is not enough**:
    when the latecomer is stamped no record before it is eligible, and two runs of limit 1 pass
    over it, for the two that became eligible since. -/
theorem later_eligible_records_go_first :
    ¬ ∀ c, (world sampleChain False).Reachable c →
      ∀ (p : ScanParams) (limit headTs : Nat) (r : Record) (n : Nat) (s' : Store), 0 < limit →
      r ∈ c.store.records → r.status ≠ .credited →
      Passes sampleChain p limit r.key r.status n c.store s' →
      Waits r.key r.status r.queueKey s' →
      n ≤ ((c.store.records.filter fun q => q.eligibleIn p r.status headTs &&
        decide (q.queueKey < r.queueKey)).length + (limit - 1)) / limit + 1 := by
  intro hall
  obtain ⟨c, hreach, hstore⟩ := cadenced_reachable
  have hmem : latecomer ∈ c.store.records := by
    rw [hstore]
    exact mem_cons_of_mem _ (mem_cons_of_mem _ mem_cons_self)
  have hbound := hall c hreach x402Scan 1 1000 latecomer 2 cadencedTwice (by decide) hmem
    (by decide) (hstore ▸ passes_over_latecomer) latecomer_waits
  rw [hstore] at hbound
  exact absurd hbound (by decide)

end Motebit.X402
