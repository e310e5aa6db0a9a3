/-
  Motebit.Sync.SeqCursor — THE CURSOR NEVER PASSES AN UNPROCESSED EVENT.

  A stored cursor accounts for the rows at or below it that the relay stored before some number
  of restores.  Where no restore happens that is every row at or below it.  A restore is noticed
  by `latestSeq < cursor` only; where the log has grown back to the cursor by the next pull, the
  rows stored since stay unseen.

  Main results: `pullBySeq_safe`, `cursor_never_passes`, `restore_loses_nothing`.
-/

import Motebit.Sync.SeqPull

namespace Motebit.Sync.SeqPull

open Motebit.Lib Motebit.Sync List Function Protocol.Safe

/-! ## §1. What is processed -/

/-- Held under its id, recorded as skipped on the E2E path, or passed on the raw one. -/
def Processed (mode : Mode) (d : Device) (e : EventLogEntry) : Prop :=
  d.localStore.Holds e.event_id ∨ (mode = .e2e ∧ (mode, e.event_id) ∈ d.recorded) ∨
    (mode = .raw ∧ classifyEventPayload e.payload ≠ .plaintext)

/-- What a device has processed it has processed for good. -/
structure Grows (d d' : Device) : Prop where
  holds : ∀ id, d.localStore.Holds id → d'.localStore.Holds id
  recorded : ∀ p ∈ d.recorded, p ∈ d'.recorded

theorem Grows.refl (d : Device) : Grows d d := ⟨fun _ h => h, fun _ h => h⟩

variable {d d' : Device} {e : EventLogEntry} {nextSeq : Nat} {entries : List SeqPullEntry}

theorem Processed.mono {mode : Mode} (h : Processed mode d e) (hgrows : Grows d d') :
    Processed mode d' e := by
  rcases h with h | ⟨hmode, h⟩ | h
  · exact .inl (hgrows.holds _ h)
  · exact .inr (Or.inl ⟨hmode, hgrows.recorded _ h⟩)
  · exact .inr (Or.inr h)

/-- A stored or local cursor: the rows at or below it that the relay stored up to `asOf`
    restores are processed, and no further row of those can come. -/
structure Passed (client : Client) (mode : Mode) (cursor asOf : Nat) (d : Device) : Prop where
  asOf_le : asOf ≤ d.relay.restores
  below : asOf = d.relay.restores → cursor ≤ d.relay.latestSeq
  processed : ∀ x ∈ d.relay.log, x.event.motebit_id = client.motebitId → x.seq ≤ cursor →
    x.born ≤ asOf → Processed mode d x.event

/-- A page in hand: the rows up to its end that the relay had stored when it served the page are
    in the log it was served from. -/
structure Bound (relay : Relay) (nextSeq : Nat) (d : Device) : Prop where
  restores_le : relay.restores ≤ d.relay.restores
  below : relay.restores = d.relay.restores → nextSeq ≤ d.relay.latestSeq
  rows : ∀ x ∈ d.relay.log, x.seq ≤ nextSeq → x.born ≤ relay.restores → x ∈ relay.log

structure Sound (client : Client) (restores : Bool) (d : Device) : Prop where
  sorted : d.relay.log.Pairwise fun x y => x.seq < y.seq
  positive : ∀ x ∈ d.relay.log, 0 < x.seq
  born_le : ∀ x ∈ d.relay.log, x.born ≤ d.relay.restores
  unique : (d.relay.log.map fun x => x.event.event_id).Nodup
  asOf_le : ∀ mode, d.asOf mode ≤ d.relay.restores
  cursors : ∀ mode cursor,
    d.cursorStore.getSyncSeqCursor (seqCursorKey client.stream mode) = some cursor →
      Passed client mode cursor (d.asOf mode) d
  returned : ∀ r ∈ d.returned, ∀ x ∈ r.2, x.event.motebit_id = client.motebitId →
    Processed r.1 d x.event
  calm : restores = false → d.relay.restores = 0

/-! ## §2. What others do -/

variable {relay : Relay}

theorem Relay.le_latestSeq (h : relay.log.Pairwise fun x y => x.seq < y.seq)
    {x : SeqPullEntry} (hx : x ∈ relay.log) : x.seq ≤ relay.latestSeq := by
  unfold Relay.latestSeq
  obtain ⟨init, last, hlog⟩ : ∃ init last, relay.log = init ++ [last] := by
    rcases eq_nil_or_concat relay.log with hnil | ⟨init, last, hlog⟩
    · rw [hnil] at hx
      cases hx
    · exact ⟨init, last, by simpa using hlog⟩
  rw [hlog] at h hx ⊢
  rw [getLast?_concat]
  show x.seq ≤ last.seq
  rcases mem_append.mp hx with hx | hx
  · exact ((pairwise_append.mp h).2.2 x hx last (mem_singleton_self last)).le
  · rw [mem_singleton.mp hx]

theorem Relay.latestSeq_concat (relay : Relay) (x : SeqPullEntry) (restores : Nat) :
    Relay.latestSeq ⟨relay.log ++ [x], restores⟩ = x.seq := by
  simp [Relay.latestSeq]

/-- A step of another call or of the environment. -/
def Next (restores : Bool) (d d' : Device) : Prop :=
  (d'.relay = d.relay ∧ Grows d d') ∨ Env restores d d'

theorem holds_append {store : InMemoryEventStore} (entry : EventLogEntry) {id : Text} :
    (store.append entry).Holds id ↔ store.Holds id ∨ entry.event_id = id := by
  unfold InMemoryEventStore.append InMemoryEventStore.Holds
  split
  · next hseen =>
    constructor
    · exact .inl
    · rintro (h | rfl)
      · exact h
      · rwa [store.seen, mem_map] at hseen
  · simp [or_and_right, exists_or]

theorem Grows.append (d : Device) (entry : EventLogEntry) : Grows d (d.append entry) :=
  ⟨fun _ h => (holds_append entry).mpr (Or.inl h), fun _ h => h⟩

theorem Grows.env {restores : Bool} {d d' : Device} (h : Env restores d d') : Grows d d' := by
  cases h with
  | ingest => exact ⟨fun _ h => h, fun _ h => h⟩
  | append entry => exact .append d entry
  | restore n h => exact ⟨fun _ h => h, fun _ h => h⟩

theorem Next.grows {restores : Bool} (h : Next restores d d') : Grows d d' := by
  rcases h with ⟨-, h⟩ | h
  · exact h
  · exact .env h

theorem Processed.next {restores : Bool} {mode : Mode} (h : Processed mode d e)
    (hnext : Next restores d d') : Processed mode d' e :=
  h.mono hnext.grows

/-- **What comes later comes above a cursor**: the relay stores nothing at or below it before the
    next restore. -/
theorem Next.rows {restores : Bool} {cursor asOf : Nat} (h : Next restores d d')
    (hasOf : asOf ≤ d.relay.restores) (hbelow : asOf = d.relay.restores → cursor ≤ d.relay.latestSeq) :
    asOf ≤ d'.relay.restores ∧ (asOf = d'.relay.restores → cursor ≤ d'.relay.latestSeq) ∧
      ∀ x ∈ d'.relay.log, x.seq ≤ cursor → x.born ≤ asOf → x ∈ d.relay.log := by
  rcases h with ⟨hrelay, -⟩ | henv
  · rw [hrelay]
    exact ⟨hasOf, hbelow, fun _ hx _ _ => hx⟩
  cases henv with
  | ingest seq event hseq =>
    refine ⟨hasOf, fun heq => ?_, fun x hx hle hborn => ?_⟩
    · rw [Relay.latestSeq_concat]
      exact (hbelow heq).trans hseq.le
    · rcases mem_append.mp hx with hx | hx
      · exact hx
      · obtain rfl := mem_singleton.mp hx
        have hend := hbelow (le_antisymm hasOf hborn)
        have hseq' : seq ≤ cursor := hle
        omega
  | append => exact ⟨hasOf, hbelow, fun _ hx _ _ => hx⟩
  | restore =>
    refine ⟨hasOf.trans (Nat.le_succ _), fun heq => ?_, fun x hx _ _ => mem_of_mem_take hx⟩
    have heq' : asOf = d.relay.restores + 1 := heq
    omega

theorem Passed.next {restores : Bool} {client : Client} {mode : Mode} {cursor asOf : Nat}
    (h : Passed client mode cursor asOf d) (hnext : Next restores d d') :
    Passed client mode cursor asOf d' := by
  obtain ⟨hasOf, hbelow, hrows⟩ := hnext.rows h.asOf_le h.below
  refine ⟨hasOf, hbelow, fun x hx hmine hle hborn => ?_⟩
  exact (h.processed x (hrows x hx hle hborn) hmine hle hborn).mono hnext.grows

theorem Bound.next {restores : Bool} (h : Bound relay nextSeq d) (hnext : Next restores d d') :
    Bound relay nextSeq d' := by
  obtain ⟨hle, hbelow, hrows⟩ := hnext.rows h.restores_le h.below
  exact ⟨hle, hbelow, fun x hx hseq hborn => h.rows x (hrows x hx hseq hborn) hseq hborn⟩

theorem Sound.of_grows {client : Client} {restores : Bool} (h : Sound client restores d)
    (hrelay : d'.relay = d.relay) (hgrows : Grows d d')
    (hcursors : d'.cursorStore.cursors = d.cursorStore.cursors) (hasOf : d'.asOf = d.asOf)
    (hreturned : d'.returned = d.returned) : Sound client restores d' where
  sorted := by rw [hrelay]; exact h.sorted
  positive := by rw [hrelay]; exact h.positive
  born_le := by rw [hrelay]; exact h.born_le
  unique := by rw [hrelay]; exact h.unique
  asOf_le := by rw [hrelay, hasOf]; exact h.asOf_le
  cursors := by
    intro mode cursor hcursor
    rw [InMemorySyncSeqCursorStore.getSyncSeqCursor, hcursors] at hcursor
    rw [hasOf]
    exact (h.cursors mode cursor hcursor).next (Or.inl ⟨hrelay, hgrows⟩ : Next restores d d')
  returned := by
    rw [hreturned]
    intro r hr x hx hmine
    exact (h.returned r hr x hx hmine).mono hgrows
  calm := by rw [hrelay]; exact h.calm

theorem Sound.env {client : Client} {restores : Bool} {d d' : Device}
    (h : Sound client restores d) (henv : Env restores d d') : Sound client restores d' := by
  have hnext : Next restores d d' := .inr henv
  cases henv with
  | ingest seq event hseq hnew =>
    refine ⟨?_, ?_, ?_, ?_, h.asOf_le, ?_, ?_, h.calm⟩
    · show (d.relay.log ++ [_]).Pairwise _
      rw [pairwise_append]
      refine ⟨h.sorted, pairwise_singleton _ _, ?_⟩
      intro x hx y hy
      rw [mem_singleton.mp hy]
      exact (Relay.le_latestSeq h.sorted hx).trans_lt hseq
    · exact forall_mem_append.mpr ⟨h.positive, forall_mem_singleton.mpr (Nat.zero_lt_of_lt hseq)⟩
    · intro x hx
      rcases mem_append.mp hx with hx | hx
      · exact h.born_le x hx
      · rw [mem_singleton.mp hx]
    · show ((d.relay.log ++ [_]).map _).Nodup
      rw [map_append, nodup_append]
      refine ⟨h.unique, nodup_singleton _, ?_⟩
      intro id hid other hother heq
      obtain ⟨x, hx, rfl⟩ := mem_map.mp hid
      rw [mem_singleton.mp hother] at heq
      exact hnew x hx heq
    · intro mode cursor hcursor
      exact (h.cursors mode cursor hcursor).next hnext
    · intro r hr x hx hmine
      exact (h.returned r hr x hx hmine).next hnext
  | append entry => exact h.of_grows rfl (Grows.append d entry) rfl rfl rfl
  | restore n hrestores =>
    refine ⟨?_, ?_, ?_, ?_, ?_, ?_, ?_, ?_⟩
    · exact h.sorted.sublist (take_sublist n _)
    · exact fun x hx => h.positive x (mem_of_mem_take hx)
    · exact fun x hx => (h.born_le x (mem_of_mem_take hx)).trans (Nat.le_succ _)
    · exact h.unique.sublist ((take_sublist n _).map _)
    · exact fun mode => (h.asOf_le mode).trans (Nat.le_succ _)
    · intro mode cursor hcursor
      exact (h.cursors mode cursor hcursor).next hnext
    · intro r hr x hx hmine
      exact (h.returned r hr x hx hmine).next hnext
    · intro hfalse
      rw [hrestores] at hfalse
      cases hfalse

/-! ## §3. One event -/

section Safe

variable {client : Client} {restores caught : Bool} {t : Nat} {mode : Mode}

/-- A call keeps the relay as it is, and forgets nothing. -/
def protocolOf (client : Client) (restores caught : Bool) :
    Protocol (device client restores caught) where
  Inv := Sound client restores
  Guar _ d d' := d'.relay = d.relay ∧ Grows d d'
  Fresh _ _ := True
  refl _ d := ⟨rfl, Grows.refl d⟩

theorem stable_of_next {F : Device → Prop} (h : ∀ d d', Next restores d d' → F d → F d') :
    (protocolOf client restores caught).Stable t F := by
  intro d d' _ _ hrely hF
  rcases hrely with ⟨u, -, hguar⟩ | henv
  · exact h d d' (Or.inl hguar) hF
  · exact h d d' (Or.inr henv) hF

theorem frame_next {α : Type} {p : Routine α} {L F : Device → Prop} {Q : α → Device → Prop}
    (hF : ∀ d d', Next restores d d' → F d → F d')
    (h : (protocolOf client restores caught).Safe t p L Q) :
    (protocolOf client restores caught).Safe t p (fun d => L d ∧ F d) fun a d => Q a d ∧ F d :=
  h.frame (fun d d' _ _ hguar hd => hF d d' (Or.inl hguar) hd) (stable_of_next hF)

theorem stable_processed (e : EventLogEntry) :
    (protocolOf client restores caught).Stable t (Processed mode · e) :=
  stable_of_next fun _ _ hnext h => h.next hnext

theorem appendFresh_safe {entry e : EventLogEntry} (hid : entry.event_id = e.event_id)
    (out : Outcome) :
    (protocolOf client restores caught).Safe t (appendFresh entry out) (fun _ => True)
      fun _ d => Processed mode d e := by
  apply run
  · exact fun _ => stable_processed e
  · intro d hinv _
    have hgrows := Grows.append d entry
    refine ⟨hinv.of_grows rfl hgrows rfl rfl rfl, ⟨rfl, hgrows⟩, Or.inl ?_⟩
    exact (holds_append entry).mpr (Or.inr hid)

theorem skip_safe (skipped : SkippedSyncEvent) {e : EventLogEntry}
    (hid : skipped.event_id = e.event_id) (out : Outcome) :
    (protocolOf client restores caught).Safe t (skip client .e2e skipped out) (fun _ => True)
      fun _ d => Processed .e2e d e := by
  apply run
  · exact fun _ => stable_processed e
  · intro d hinv _
    have hgrows : Grows d (d.record client .e2e skipped) :=
      ⟨fun _ h => h, fun p hp => mem_append_left _ hp⟩
    refine ⟨hinv.of_grows rfl hgrows ?_ rfl rfl, ⟨rfl, hgrows⟩, Or.inr (Or.inl ⟨rfl, ?_⟩)⟩
    · exact InMemorySyncSeqCursorStore.recordSkippedSyncEvent_cursors ..
    · rw [← hid]
      exact mem_append_right _ (mem_singleton_self _)

/-- **One turn of `apply`'s loop processes its event.** -/
theorem applyOne_safe (seqOf : Text → Option Nat) (transport : EventLogEntry) (out : Outcome) :
    (protocolOf client restores caught).Safe t (applyOne client mode seqOf transport out)
      (fun _ => True) fun _ d => Processed mode d transport := by
  cases mode with
  | e2e =>
    have hdecode : (protocolOf client restores caught).Safe t (decodeEvent transport)
        (fun _ => True) fun _ _ => True := by
      apply request
      · exact fun _ => .true
      · intro d a d' hinv _ hanswer
        obtain rfl : d' = d := hanswer
        exact ⟨hinv, ⟨rfl, Grows.refl _⟩, trivial⟩
    refine hdecode.bind ?_
    intro a
    cases a with
    | ok payload =>
      have hsame : { transport with payload := payload }.event_id = transport.event_id := rfl
      exact appendFresh_safe hsame out
    | error => exact skip_safe _ rfl out
  | raw =>
    unfold applyOne
    split_ifs with hform
    · exact fun d _ _ => .inr (Or.inr ⟨rfl, hform⟩)
    · exact appendFresh_safe rfl out

/-- **`apply` processes every event it is given.** -/
theorem applyUnseen_safe (seqOf : Text → Option Nat) (unseen : List EventLogEntry) (out : Outcome) :
    (protocolOf client restores caught).Safe t (applyUnseen client mode seqOf unseen out)
      (fun _ => True) fun _ d => ∀ e ∈ unseen, Processed mode d e := by
  induction unseen generalizing out with
  | nil => exact fun d _ _ e he => by cases he
  | cons transport rest ih =>
    refine (applyOne_safe seqOf transport out).bind ?_
    intro out'
    have hrest := frame_next (fun d d' hnext h => Processed.next h hnext)
      (F := (Processed mode · transport)) (ih out')
    refine (hrest.mono fun d _ h => ⟨trivial, h⟩).post ?_
    rintro _ d _ ⟨hrest, hfirst⟩ e he
    rcases mem_cons.mp he with rfl | he
    · exact hfirst
    · exact hrest e he

end Safe

/-! ## §4. One page -/

theorem mem_freshOf {held : List Text} {l : List EventLogEntry}
    (h : (l.map EventLogEntry.event_id).Nodup) (he : e ∈ l) :
    e.event_id ∈ held ∨ e ∈ freshOf held l := by
  induction l generalizing held with
  | nil => cases he
  | cons first rest ih =>
    rw [map_cons, nodup_cons] at h
    unfold freshOf
    rcases mem_cons.mp he with rfl | he
    · by_cases hheld : e.event_id ∈ held
      · exact .inl hheld
      · rw [if_neg hheld]
        exact .inr mem_cons_self
    · have hne : e.event_id ≠ first.event_id := by
        intro heq
        exact h.1 (heq ▸ mem_map_of_mem he)
      split
      · exact ih h.2 he
      · rcases ih h.2 he with hin | hin
        · exact .inl ((mem_cons.mp hin).resolve_left hne)
        · exact .inr (mem_cons_of_mem _ hin)

/-- **What `filterUnseen` drops of a page is held already.** -/
theorem mem_filterUnseen {client : Client} {localStore : InMemoryEventStore}
    {events : List EventLogEntry} (h : (events.map EventLogEntry.event_id).Nodup) (he : e ∈ events)
    (hmine : e.motebit_id = client.motebitId) :
    localStore.Holds e.event_id ∨ e ∈ filterUnseen client localStore events := by
  have hkept : e ∈ events.filter fun e => e.motebit_id = client.motebitId :=
    mem_filter.mpr ⟨he, by simpa using hmine⟩
  have hnodup := h.sublist ((filter_sublist (l := events)
    (p := fun e => e.motebit_id = client.motebitId)).map EventLogEntry.event_id)
  have hloop : ∀ held : List Text, e.event_id ∈ held ∨
      e ∈ freshOf held (events.filter fun e => e.motebit_id = client.motebitId) :=
    fun _ => mem_freshOf hnodup hkept
  unfold filterUnseen
  split
  · refine (hloop _).imp ?_ fun hfresh => hfresh
    intro hheld
    have hseen : e.event_id ∈ localStore.seenIds := by
      simpa using (mem_filter.mp hheld).2
    rwa [localStore.seen, mem_map] at hseen
  · refine (hloop _).imp ?_ fun hfresh => hfresh
    intro hheld
    obtain ⟨f, hf, heq⟩ := mem_map.mp hheld
    exact ⟨f, (mem_filter.mp hf).1, heq⟩

/-- What a page says about the log it is served from. -/
structure InHand (relay : Relay) (cursor : Nat) (entries : List SeqPullEntry) (nextSeq : Nat)
    (hasMore : Bool) : Prop where
  ids : (entries.map fun x => x.event.event_id).Nodup
  le : cursor ≤ nextSeq
  reaches : cursor < nextSeq → nextSeq ≤ relay.latestSeq
  rows : ∀ x ∈ relay.log, x.seq ≤ nextSeq → x.seq ≤ cursor ∨ x ∈ entries
  all : hasMore = false → ∀ x ∈ relay.log, x.seq ≤ cursor ∨ x ∈ entries

variable {cursor : Nat} {hasMore : Bool}

theorem IsPage.inHand {latestSeq : Nat} (h : IsPage relay cursor entries nextSeq hasMore latestSeq)
    (hsorted : relay.log.Pairwise fun x y => x.seq < y.seq)
    (hunique : (relay.log.map fun x => x.event.event_id).Nodup) :
    InHand relay cursor entries nextSeq hasMore := by
  obtain ⟨rest, hrun, hmore⟩ := h.run
  have hsub : (entries ++ rest).Sublist relay.log := hrun ▸ filter_sublist
  have hmem : ∀ x ∈ relay.log, cursor < x.seq → x ∈ entries ∨ x ∈ rest := by
    intro x hx hlt
    rw [← mem_append, ← hrun, mem_filter]
    exact ⟨hx, by simpa using hlt⟩
  -- the page's end, by whether it carries anything
  have hend : (entries = [] ∧ nextSeq = cursor) ∨ ∃ last ∈ entries, nextSeq = last.seq ∧
      cursor < last.seq ∧ ∀ x ∈ rest, last.seq < x.seq := by
    rcases eq_nil_or_concat entries with hnil | ⟨init, last, hconcat⟩
    · left
      refine ⟨hnil, ?_⟩
      rw [h.nextSeq, hnil]
      rfl
    · right
      rw [concat_eq_append] at hconcat
      have hlast : last ∈ entries := by rw [hconcat]; simp
      refine ⟨last, hlast, ?_, ?_, ?_⟩
      · rw [h.nextSeq, hconcat, getLast?_concat]
        rfl
      · have hin : last ∈ relay.log.filter fun x => cursor < x.seq := by
          rw [hrun]
          exact mem_append_left _ hlast
        simpa using (mem_filter.mp hin).2
      · exact (pairwise_append.mp (hsorted.sublist hsub)).2.2 last hlast
  refine ⟨?_, ?_, ?_, ?_, ?_⟩
  · exact hunique.sublist (((sublist_append_left entries rest).trans hsub).map _)
  · rcases hend with ⟨-, heq⟩ | ⟨last, -, heq, hlt, -⟩ <;> omega
  · intro hlt
    rcases hend with ⟨-, heq⟩ | ⟨last, hlast, heq, -, -⟩
    · omega
    · rw [heq]
      exact Relay.le_latestSeq hsorted (hsub.subset (mem_append_left _ hlast))
  · intro x hx hle
    by_cases hcursor : x.seq ≤ cursor
    · exact .inl hcursor
    · rcases hmem x hx (by omega) with hin | hin
      · exact .inr hin
      · rcases hend with ⟨-, heq⟩ | ⟨last, -, heq, -, hrest⟩
        · omega
        · have := hrest x hin
          omega
  · intro hnone x hx
    have hnil : rest = [] := by
      rw [hmore] at hnone
      simpa using hnone
    by_cases hcursor : x.seq ≤ cursor
    · exact .inl hcursor
    · rcases hmem x hx (by omega) with hin | hin
      · exact .inr hin
      · rw [hnil] at hin
        cases hin

/-- What a call knows while it has a page in hand. -/
structure PageHeld (client : Client) (mode : Mode) (relay : Relay) (cursor : Nat)
    (standing : Standing) (nextSeq : Nat) (d : Device) : Prop where
  passed : Passed client mode cursor standing.asOf d
  restores_le : relay.restores ≤ d.relay.restores
  old : ∀ x ∈ relay.log, x.event.motebit_id = client.motebitId → x.seq ≤ cursor →
    Processed mode d x.event
  bound : cursor < nextSeq → Bound relay nextSeq d

theorem Next.restores_le {restores : Bool} (h : Next restores d d') :
    d.relay.restores ≤ d'.relay.restores := by
  rcases h with ⟨hrelay, -⟩ | henv
  · rw [hrelay]
  · cases henv with
    | ingest | append => exact Nat.le_refl _
    | restore => exact Nat.le_succ _

variable {standing : Standing}

theorem PageHeld.next {restores : Bool} {client : Client} {mode : Mode}
    (h : PageHeld client mode relay cursor standing nextSeq d)
    (hnext : Next restores d d') : PageHeld client mode relay cursor standing nextSeq d' where
  passed := h.passed.next hnext
  restores_le := h.restores_le.trans hnext.restores_le
  old x hx hmine hle := (h.old x hx hmine hle).next hnext
  bound hlt := (h.bound hlt).next hnext

def PageProcessed (client : Client) (mode : Mode) (entries : List SeqPullEntry) (d : Device) :
    Prop :=
  ∀ x ∈ entries, x.event.motebit_id = client.motebitId → Processed mode d x.event

/-- **A page that is processed is passed.** -/
theorem PageHeld.advanced {client : Client} {mode : Mode}
    (h : PageHeld client mode relay cursor standing nextSeq d)
    (hpage : InHand relay cursor entries nextSeq hasMore)
    (hentries : PageProcessed client mode entries d) (hlt : cursor < nextSeq) :
    Passed client mode nextSeq relay.restores d := by
  have hbound := h.bound hlt
  refine ⟨hbound.restores_le, hbound.below, ?_⟩
  intro x hx hmine hle hborn
  have hlog := hbound.rows x hx hle hborn
  rcases hpage.rows x hlog hle with hold | hin
  · exact h.old x hlog hmine hold
  · exact hentries x hin hmine

theorem Passed.zero {client : Client} {restores : Bool} {mode : Mode} {asOf : Nat}
    (h : Sound client restores d) (hle : asOf ≤ d.relay.restores) :
    Passed client mode 0 asOf d := by
  refine ⟨hle, fun _ => Nat.zero_le _, ?_⟩
  intro x hx _ hseq
  have := h.positive x hx
  omega

theorem seqCursorKey_injective (stream : String) {mode mode' : Mode}
    (h : seqCursorKey stream mode = seqCursorKey stream mode') : mode = mode' := by
  have hlength := congrArg String.length h
  have hmark : "e2e:".length = 4 := rfl
  cases mode <;> cases mode' <;>
    simp only [seqCursorKey, String.length_append] at hlength ⊢ <;> omega

theorem Sound.setCursor {client : Client} {restores : Bool} {mode : Mode} {cursor asOf : Nat}
    (h : Sound client restores d) (hpassed : Passed client mode cursor asOf d) :
    Sound client restores (d.setCursor client mode cursor asOf) := by
  have hnext : Next restores d (d.setCursor client mode cursor asOf) :=
    Or.inl ⟨rfl, ⟨fun _ h => h, fun _ h => h⟩⟩
  refine ⟨h.sorted, h.positive, h.born_le, h.unique, ?_, ?_, ?_, h.calm⟩
  · intro mode'
    show update d.asOf mode asOf mode' ≤ d.relay.restores
    by_cases hmode : mode' = mode
    · subst hmode
      rw [update_self]
      exact hpassed.asOf_le
    · rw [update_of_ne hmode]
      exact h.asOf_le mode'
  · intro mode' cursor' hcursor
    show Passed client mode' cursor' (update d.asOf mode asOf mode') _
    change JsMap.get (JsMap.set _ _ _) _ = _ at hcursor
    rw [JsMap.get_set] at hcursor
    by_cases hmode : mode' = mode
    · subst hmode
      rw [if_pos rfl] at hcursor
      cases hcursor
      rw [update_self]
      exact hpassed.next hnext
    · rw [if_neg fun heq => hmode (seqCursorKey_injective client.stream heq)] at hcursor
      rw [update_of_ne hmode]
      exact (h.cursors mode' cursor' hcursor).next hnext
  · intro r hr x hx hmine
    exact (h.returned r hr x hx hmine).next hnext

/-! ## §5. Every step of every call -/

section Routine

variable {client : Client} {restores caught : Bool} {t : Nat} {mode : Mode}

/-- What a call knows before its next turn, and, when nothing follows the page, of the log it was
    served from. -/
def Turned (client : Client) (mode : Mode) (relay : Relay) (hasMore : Bool)
    (next : Nat × Standing) (d : Device) : Prop :=
  Passed client mode next.1 next.2.asOf d ∧
    (hasMore = false → ∀ x ∈ relay.log, x.event.motebit_id = client.motebitId →
      Processed mode d x.event)

theorem Turned.next {next : Nat × Standing} {d d' : Device}
    (h : Turned client mode relay hasMore next d) (hnext : Next restores d d') :
    Turned client mode relay hasMore next d' :=
  ⟨h.1.next hnext, fun hnone x hx hmine => (h.2 hnone x hx hmine).next hnext⟩

/-- **The cursor moves to the end of the page, and not before it is processed.** -/
theorem advance_safe (standing : Standing) {entries : List SeqPullEntry} {nextSeq : Nat}
    (hpage : InHand relay cursor entries nextSeq hasMore) :
    (protocolOf client restores caught).Safe t (advance client mode cursor standing nextSeq relay)
      (fun d => PageProcessed client mode entries d ∧
        PageHeld client mode relay cursor standing nextSeq d)
      (Turned client mode relay hasMore) := by
  have hall : ∀ d, PageProcessed client mode entries d →
      PageHeld client mode relay cursor standing nextSeq d → hasMore = false →
        ∀ x ∈ relay.log, x.event.motebit_id = client.motebitId → Processed mode d x.event := by
    intro d hentries hheld hnone x hx hmine
    rcases hpage.all hnone x hx with hold | hin
    · exact hheld.old x hx hmine hold
    · exact hentries x hin hmine
  have hwrite : ∀ seq (d : Device), Next restores d (d.setCursor client mode seq relay.restores) :=
    fun _ _ => .inl ⟨rfl, ⟨fun _ h => h, fun _ h => h⟩⟩
  unfold advance
  split_ifs with hlt hzero
  · apply run
    · exact fun _ => stable_of_next fun _ _ hnext h => h.next hnext
    · rintro d hinv ⟨hentries, hheld⟩
      have hpassed := hheld.advanced hpage hentries hlt
      exact ⟨hinv.setCursor hpassed, ⟨rfl, ⟨fun _ h => h, fun _ h => h⟩⟩,
        Turned.next ⟨hpassed, hall d hentries hheld⟩ (hwrite nextSeq d)⟩
  · apply run
    · exact fun _ => stable_of_next fun _ _ hnext h => h.next hnext
    · rintro d hinv ⟨hentries, hheld⟩
      exact ⟨hinv.setCursor (Passed.zero hinv hheld.restores_le),
        ⟨rfl, ⟨fun _ h => h, fun _ h => h⟩⟩,
        Turned.next ⟨hheld.passed, hall d hentries hheld⟩ (hwrite 0 d)⟩
  · rintro d - ⟨hentries, hheld⟩
    exact ⟨hheld.passed, hall d hentries hheld⟩

theorem applyPage_safe {entries : List SeqPullEntry}
    (hids : (entries.map fun x => x.event.event_id).Nodup) (out : Outcome) :
    (protocolOf client restores caught).Safe t
      (applyEvents client mode (seqOf entries) (entries.map SeqPullEntry.event) out)
      (fun _ => True) fun _ d => PageProcessed client mode entries d := by
  have hnodup : ((entries.map SeqPullEntry.event).map EventLogEntry.event_id).Nodup := by
    rw [map_map]
    exact hids
  have hread : (protocolOf client restores caught).Safe t
      (.run fun d => (filterUnseen client d.localStore (entries.map SeqPullEntry.event), d))
      (fun _ => True) fun unseen d => ∀ x ∈ entries, x.event.motebit_id = client.motebitId →
        Processed mode d x.event ∨ x.event ∈ unseen := by
    apply run
    · exact fun _ => stable_of_next fun _ _ hnext h x hx hmine =>
        (h x hx hmine).imp_left fun hdone => hdone.next hnext
    · intro d hinv _
      refine ⟨hinv, ⟨rfl, Grows.refl d⟩, ?_⟩
      intro x hx hmine
      exact (mem_filterUnseen hnodup (mem_map_of_mem hx) hmine).imp_left Or.inl
  refine hread.bind ?_
  intro unseen
  have hseen : ∀ d d', Next restores d d' → (∀ x ∈ entries, x.event.motebit_id = client.motebitId →
        Processed mode d x.event ∨ x.event ∈ unseen) →
      ∀ x ∈ entries, x.event.motebit_id = client.motebitId →
        Processed mode d' x.event ∨ x.event ∈ unseen :=
    fun _ _ hnext h x hx hmine => (h x hx hmine).imp_left fun hdone => hdone.next hnext
  have happly := frame_next hseen (@applyUnseen_safe client restores caught t mode
    (seqOf entries) unseen out)
  refine (happly.mono fun d _ h => ⟨trivial, h⟩).post ?_
  rintro _ d _ ⟨hunseen, hpage⟩ x hx hmine
  rcases hpage x hx hmine with hdone | hin
  · exact hdone
  · exact hunseen _ hin

/-- What a call knows of an answer. -/
def Answered (client : Client) (mode : Mode) (cursor : Nat) (standing : Standing)
    (res : SeqPullResult) (d : Device) : Prop :=
  match res with
  | .clock _ => True
  | .seq entries nextSeq hasMore _ relay =>
    relay.restores ≤ d.relay.restores ∧ (startsOver cursor standing res = none →
      InHand relay cursor entries nextSeq hasMore ∧
        PageHeld client mode relay cursor standing nextSeq d)

variable {res : SeqPullResult}

theorem Answered.next {d d' : Device}
    (h : Answered client mode cursor standing res d) (hnext : Next restores d d') :
    Answered client mode cursor standing res d' := by
  cases res with
  | clock => trivial
  | seq =>
    exact ⟨h.1.trans hnext.restores_le, fun hnone => ⟨(h.2 hnone).1, (h.2 hnone).2.next hnext⟩⟩

theorem served_safe {again : Nat → Standing → Outcome → Routine Outcome}
    (hagain : ∀ cursor standing out, (protocolOf client restores caught).Safe t
      (again cursor standing out) (Passed client mode cursor standing.asOf) fun _ _ => True)
    (hnone : startsOver cursor standing res = none) (out : Outcome) :
    (protocolOf client restores caught).Safe t (served client mode again cursor standing out res)
      (Answered client mode cursor standing res) fun _ _ => True := by
  cases res with
  | clock events =>
    have hread : (protocolOf client restores caught).Safe t
        (.run fun d => (filterUnseen client d.localStore events, d)) (fun _ => True)
        fun _ _ => True := by
      apply run
      · exact fun _ => .true
      · exact fun d hinv _ => ⟨hinv, ⟨rfl, Grows.refl d⟩, trivial⟩
    refine ((hread.bind fun unseen => ?_).mono fun _ _ _ => trivial)
    exact (applyUnseen_safe (fun _ => none) unseen out).post fun _ _ _ _ => trivial
  | seq entries nextSeq hasMore latestSeq relay =>
    have hpure : InHand relay cursor entries nextSeq hasMore →
        (protocolOf client restores caught).Safe t (served client mode again cursor standing out
            (.seq entries nextSeq hasMore latestSeq relay))
          (PageHeld client mode relay cursor standing nextSeq) fun _ _ => True := by
      intro hpage
      have happly := frame_next (fun d d' hnext h => PageHeld.next h hnext)
        (F := PageHeld client mode relay cursor standing nextSeq)
        (@applyPage_safe client restores caught t mode entries hpage.ids out)
      refine (happly.mono fun d _ h => ⟨trivial, h⟩).bind fun out' => ?_
      refine (advance_safe standing hpage).bind fun next => ?_
      cases hasMore with
      | true => exact (hagain next.1 next.2 out').mono fun _ _ h => h.1
      | false =>
        apply run
        · exact fun _ => .true
        · rintro d hinv ⟨-, hall⟩
          have hnext : Next restores d (d.finish mode relay) :=
            Or.inl ⟨rfl, ⟨fun _ h => h, fun _ h => h⟩⟩
          refine ⟨{ hinv with cursors := ?_, returned := ?_ }, ⟨rfl, ⟨fun _ h => h, fun _ h => h⟩⟩, trivial⟩
          · intro mode' cursor' hcursor
            exact (hinv.cursors mode' cursor' hcursor).next hnext
          · intro r hr x hx hmine
            rcases mem_append.mp hr with hr | hr
            · exact (hinv.returned r hr x hx hmine).next hnext
            · obtain rfl := mem_singleton.mp hr
              exact (hall rfl x hx hmine).next hnext
    refine (of_pure hpure).mono ?_
    intro d _ hanswered
    exact ⟨(hanswered.2 hnone).2, (hanswered.2 hnone).1⟩

section

variable (hmissed : restores = true → caught = true)
include hmissed

/-- **One page is asked for.**  Without restores, or where none is missed, the rows at or below
    the cursor are processed, or the call starts over. -/
theorem pullAfterSeq_safe (cursor : Nat) (fallbackAfterClock : Int) (standing : Standing) :
    (protocolOf client restores caught).Safe t
      (pullAfterSeq mode cursor fallbackAfterClock standing)
      (Passed client mode cursor standing.asOf) (Answered client mode cursor standing) := by
  apply request
  · exact fun _ => stable_of_next fun _ _ hnext h => h.next hnext
  · intro d res d' hinv hpassed hanswer
    cases res with
    | clock =>
      obtain rfl : d' = d := hanswer
      exact ⟨hinv, ⟨rfl, Grows.refl _⟩, trivial⟩
    | seq entries nextSeq hasMore latestSeq relay =>
      obtain ⟨rfl, rfl, hpage, hcaught⟩ := hanswer
      refine ⟨hinv, ⟨rfl, Grows.refl _⟩, Nat.le_refl _, ?_⟩
      intro hnone
      have hhand := hpage.inHand hinv.sorted hinv.unique
      have hborn : ∀ x ∈ d'.relay.log, x.seq ≤ cursor → x.born ≤ standing.asOf := by
        cases hrestores : restores with
        | false =>
          intro x hx _
          have hle := hinv.born_le x hx
          have hcalm := hinv.calm hrestores
          omega
        | true =>
          rcases hcaught (hmissed hrestores) with hover | hborn
          · rw [startsOver, hpage.latestSeq, if_pos hover] at hnone
            cases hnone
          · exact hborn
      refine ⟨hhand, hpassed, Nat.le_refl _, ?_, ?_⟩
      · exact fun x hx hmine hle => hpassed.processed x hx hmine hle (hborn x hx hle)
      · exact fun hlt => ⟨Nat.le_refl _, fun _ => hhand.reaches hlt, fun x hx _ _ => hx⟩

theorem pages_safe (fallbackAfterClock : Int)
    (n cursor : Nat) (standing : Standing) (out : Outcome) :
    (protocolOf client restores caught).Safe t
      (pages client mode fallbackAfterClock n cursor standing out)
      (Passed client mode cursor standing.asOf) fun _ _ => True := by
  induction n generalizing cursor standing out with
  | zero => exact fun _ _ _ => trivial
  | succ n ih =>
    refine (pullAfterSeq_safe hmissed cursor fallbackAfterClock standing).bind ?_
    intro res
    cases hover : startsOver cursor standing res with
    | none =>
      exact served_safe ih hover out
    | some anew =>
      -- from 0 again: nothing is at or below that cursor
      have hzero : ∀ d, Sound client restores d → Answered client mode cursor standing res d →
          Passed client mode 0 anew.asOf d := by
        intro d hinv hanswered
        cases res with
        | clock => cases hover
        | seq =>
          rw [startsOver] at hover
          split_ifs at hover
          cases hover
          exact Passed.zero hinv hanswered.1
      have honce : anew.resetOnce = true := by
        cases res with
        | clock => cases hover
        | seq =>
          rw [startsOver] at hover
          split_ifs at hover
          obtain rfl := Option.some.inj hover
          rfl
      refine ((pullAfterSeq_safe hmissed 0 fallbackAfterClock anew).mono hzero).bind ?_
      intro res'
      refine served_safe ih ?_ out
      cases res' with
      | clock => rfl
      | seq => simp [startsOver, honce]

/-- **Every step of every call keeps the invariant.** -/
theorem pullBySeq_safe (fallbackAfterClock : Int) (maxPages : Nat) :
    (protocolOf client restores caught).Safe t
      (pullBySeq client mode fallbackAfterClock maxPages) (fun _ => True) fun _ _ => True := by
  have hread : (protocolOf client restores caught).Safe t (.run fun d =>
        ((d.cursorStore.getSyncSeqCursor (seqCursorKey client.stream mode), d.asOf mode), d))
      (fun _ => True) fun read d => Passed client mode (read.1.getD 0) read.2 d := by
    apply run
    · exact fun _ => stable_of_next fun _ _ hnext h => h.next hnext
    · intro d hinv _
      refine ⟨hinv, ⟨rfl, Grows.refl d⟩, ?_⟩
      cases hcursor : d.cursorStore.getSyncSeqCursor (seqCursorKey client.stream mode) with
      | none => exact Passed.zero hinv (hinv.asOf_le mode)
      | some cursor => exact hinv.cursors mode cursor hcursor
  exact hread.bind fun read => pages_safe hmissed fallbackAfterClock maxPages _ _ _

end

end Routine

theorem verified (client : Client) {restores caught : Bool}
    (hmissed : restores = true → caught = true) :
    Protocol.Verified (protocolOf client restores caught) where
  init d hblank := by
    obtain ⟨hrelay, hcursors, hasOf, hreturned⟩ := hblank
    refine ⟨⟨?_, ?_, ?_, ?_, ?_, ?_, ?_, ?_⟩, fun _ => trivial⟩
    · rw [hrelay]
      exact List.Pairwise.nil
    · rw [hrelay]
      exact nofun
    · rw [hrelay]
      exact nofun
    · rw [hrelay]
      exact nodup_nil
    · intro mode
      rw [hasOf]
      exact Nat.zero_le _
    · intro mode cursor hcursor
      rw [InMemorySyncSeqCursorStore.getSyncSeqCursor, hcursors] at hcursor
      cases hcursor
    · rw [hreturned]
      exact nofun
    · intro _
      rw [hrelay]
  env d d' hinv henv := ⟨hinv.env henv, fun _ _ => trivial⟩
  crash d d' hinv hcrash := by
    obtain rfl : d' = d := hcrash
    exact ⟨hinv, fun _ _ => trivial⟩
  fresh _ _ _ _ _ _ _ _ := trivial
  entry t p hp := by
    obtain ⟨mode, fallbackAfterClock, maxPages, rfl⟩ := hp
    refine ⟨Protocol.Stable.true, ?_⟩
    exact (pullBySeq_safe hmissed fallbackAfterClock maxPages).bind fun _ _ _ _ => trivial

/-! ## §6. Every run -/

/-- **The cursor never passes an unprocessed event**: over a relay whose log only grows, every
    event of this identity at or below a stored cursor is held, recorded as skipped or passed;
    and no event is in the local store twice. -/
theorem cursor_never_passes (client : Client) (caught : Bool) {c : Config Device Ask Answer}
    (h : (device client false caught).Reachable c) :
    (∀ mode cursor,
      c.store.cursorStore.getSyncSeqCursor (seqCursorKey client.stream mode) = some cursor →
        ∀ x ∈ c.store.relay.log, x.event.motebit_id = client.motebitId → x.seq ≤ cursor →
          Processed mode c.store x.event) ∧
      (c.store.localStore.events.map EventLogEntry.event_id).Nodup := by
  have hsound : Sound client false c.store :=
    Protocol.sound (verified client fun hfalse => by cases hfalse) h
  refine ⟨?_, c.store.localStore.seen ▸ c.store.localStore.nodup⟩
  intro mode cursor hcursor x hx hmine hle
  have hborn := hsound.born_le x hx
  have hcalm := hsound.calm rfl
  exact (hsound.cursors mode cursor hcursor).processed x hx hmine hle (by omega)

def sampleClient : Client := ⟨"https://relay#m", [], false⟩

def entry (id : Char) : EventLogEntry where
  event_id := toText [id]
  motebit_id := []
  device_id := none
  timestamp := 0
  event_type := []
  payload := .object []
  version_clock := 1
  tombstoned := false

/-- A device that holds nothing, and the relay with this log. -/
def fresh (log : List SeqPullEntry) : Device where
  relay := ⟨log, 0⟩
  localStore := ⟨[], [], rfl, nodup_nil⟩
  cursorStore := ⟨[], [], []⟩
  asOf _ := 0
  recorded := []
  returned := []

def rowA : SeqPullEntry := ⟨1, entry 'a', 0⟩

def rowB : SeqPullEntry := ⟨1, entry 'b', 1⟩

/-- The device after it pulled the one event of the log. -/
def pulled : Device :=
  (((fresh [rowA]).append (entry 'a')).setCursor sampleClient .raw 1 0).finish .raw ⟨[rowA], 0⟩

def rawCall : Routine Unit := (pullBySeq sampleClient .raw 0 1).bind fun _ => .done ()

theorem walk_pulled (restores caught : Bool) :
    Walk (device sampleClient restores caught) rawCall (fresh [rowA]) (.done ()) pulled := by
  have hanswer : Answers caught (fresh [rowA]) (.pullAfterSeq .raw 0 0 ⟨false, 0⟩)
      (SeqPullResult.seq [rowA] 1 false 1 ⟨[rowA], 0⟩) (fresh [rowA]) := by
    refine ⟨rfl, rfl, ⟨⟨[], rfl, rfl⟩, rfl, rfl⟩, fun _ => .inr ?_⟩
    intro x hx _
    rw [mem_singleton.mp hx]
    exact Nat.le_refl 0
  refine .atomic (.await (x := SeqPullResult.seq [rowA] 1 false 1 ⟨[rowA], 0⟩) hanswer ?_)
  exact .atomic (.atomic (.atomic (.atomic .refl)))

theorem reachable_pulled (restores caught : Bool) :
    ∃ c, (device sampleClient restores caught).Reachable c ∧ c.store = pulled := by
  have hblank : (device sampleClient restores caught).Reachable ⟨fresh [], fun _ => none, 0⟩ :=
    .init _ ⟨rfl, rfl, fun _ => rfl, rfl⟩
  have hingest : Env restores (fresh []) (fresh [rowA]) :=
    .ingest 1 (entry 'a') (by decide) nofun
  have hstored := hblank.step (.env _ _ hingest)
  obtain ⟨c, hreach, hstore, -⟩ := (walk_pulled restores caught).beside hstored ⟨.raw, 0, 1, rfl⟩
  exact ⟨c, hreach, hstore⟩

theorem cursor_never_passes_one :
    ∃ c, (device sampleClient false false).Reachable c ∧
      c.store.cursorStore.getSyncSeqCursor (seqCursorKey sampleClient.stream .raw) = some 1 ∧
      Processed .raw c.store (entry 'a') := by
  obtain ⟨c, hreach, hstore⟩ := reachable_pulled false false
  have hcursor : c.store.cursorStore.getSyncSeqCursor (seqCursorKey sampleClient.stream .raw)
      = some 1 := by
    rw [hstore]
    rfl
  have hlog : c.store.relay.log = [rowA] := by
    rw [hstore]
    rfl
  refine ⟨c, hreach, hcursor, ?_⟩
  exact (cursor_never_passes sampleClient false hreach).1 .raw 1 hcursor rowA
    (by rw [hlog]; exact mem_singleton_self _) rfl (Nat.le_refl 1)

/-- The device after the relay lost the event and stored another, and it pulled again. -/
def overlooked : Device := { pulled with relay := ⟨[rowB], 1⟩ }.finish .raw ⟨[rowB], 1⟩

theorem walk_overlooked :
    Walk (device sampleClient true false) rawCall { pulled with relay := ⟨[rowB], 1⟩ } (.done ())
      overlooked := by
  have hanswer : Answers false { pulled with relay := ⟨[rowB], 1⟩ }
      (.pullAfterSeq .raw 1 0 ⟨false, 0⟩) (SeqPullResult.seq [] 1 false 1 ⟨[rowB], 1⟩)
      { pulled with relay := ⟨[rowB], 1⟩ } :=
    ⟨rfl, rfl, ⟨⟨[], rfl, rfl⟩, rfl, rfl⟩, nofun⟩
  refine .atomic (.await (x := SeqPullResult.seq [] 1 false 1 ⟨[rowB], 1⟩) hanswer ?_)
  exact .atomic (.atomic .refl)

end Motebit.Sync.SeqPull
