/-
  Motebit.Lib.StampSync — REPLICAS THAT SYNC BY A TIME STAMP.

  A replica holds rows of one kind and runs cycles.  A cycle reads the rows stamped after `last`,
  pushes them, pulls the rows of the relay stamped after `last`, and ends by moving `last` to the
  present.  Any number of cycles of one replica may be in flight, each on its own leg.

  The invariant `Safe` says that no row falls behind `last` unsent or unseen.  It survives writes
  that no cycle in flight has missed, and pushes that no other replica has already gone past.

  Main results: `Safe.change`, `Safe.grow`, `Safe.write`, `Safe.receive`, `Safe.append`,
  `Safe.gather`, `Safe.goTo`, `Safe.drop`, `Safe.endCycle`.
-/

import Motebit.Lib.JsMap
import Motebit.Lib.Latest

namespace Motebit.Lib.StampSync

open List Function

variable {ρ S τ ι : Type} [LinearOrder τ]

/-! ## §1. Replicas -/

/-- Rows of one kind in a store: which are its own, and which it holds or holds a version of that
    took their place — by the rule for pulled rows (`Keeps`), or that or a later write
    (`Covers`). -/
structure Rows (ρ S τ : Type) where
  stamp : ρ → τ
  Local : S → ρ → Prop
  Keeps : S → ρ → Prop
  Covers : S → ρ → Prop
  covers_of_keeps : ∀ {s r}, Keeps s r → Covers s r

/-- How far a cycle is with the rows. -/
inductive Leg (ρ τ : Type)
  /-- Not in flight, or the rows are not read yet. -/
  | unread
  /-- Some rows are still to land on the relay, `batch` in the request in flight. -/
  | sending (pending : ρ → Prop) (batch : List ρ)
  | sent
  /-- The relay has answered for rows stamped after `since`; some have not arrived. -/
  | served (since : τ) (awaited : ρ → Prop)
  | received

/-- The relay has answered, without the row. -/
def Leg.Missed : Leg ρ τ → ρ → Prop
  | .served _ awaited, r => ¬ awaited r
  | .received, _ => True
  | _, _ => False

/-- A replica and its relay, which keeps what it is sent.  `began` is what the relay held when a
    cycle began, `seen` what it held when the last cycle that ended well began. -/
structure Replica (ρ S τ ι : Type) where
  relay : List ρ
  store : S
  last : τ
  leg : ι → Leg ρ τ
  began : ι → List ρ
  seen : List ρ

/-! ## §2. The invariant -/

variable (K : Rows ρ S τ)

def AllSent (v : Replica ρ S τ ι) : Prop := ∀ r, K.Local v.store r → r ∈ v.relay

def LegOk (v : Replica ρ S τ ι) : Leg ρ τ → Prop
  | .unread => True
  | .sending pending batch =>
    (∀ r, K.Local v.store r → r ∈ v.relay ∨ pending r) ∧ ∀ r ∈ batch, K.Keeps v.store r
  | .sent => AllSent K v
  | .served since awaited =>
    AllSent K v ∧ ∀ r ∈ v.relay,
      K.Keeps v.store r ∨ (K.Covers v.store r ∧ K.stamp r ≤ since) ∨ awaited r
  | .received => AllSent K v ∧ ∀ r ∈ v.relay, K.Covers v.store r

/-- **No row falls behind**: a row of the store is on the relay or stamped after `last`, a row of
    the relay is covered or stamped after it. -/
structure Safe (v : Replica ρ S τ ι) : Prop where
  unsent : ∀ r, K.Local v.store r → r ∈ v.relay ∨ v.last < K.stamp r
  unseen : ∀ r ∈ v.relay, K.Covers v.store r ∨ v.last < K.stamp r
  seen : ∀ r ∈ v.seen, r ∈ v.relay ∧ K.Covers v.store r
  began : ∀ i, ∀ r ∈ v.began i, r ∈ v.relay
  legs : ∀ i, LegOk K v (v.leg i)

variable {K} {v v' : Replica ρ S τ ι}

/-! ## §3. Steps -/

/-- What one step may do to a replica and its relay.  A row new to the relay is this replica's
    own, or stamped after `last` while no cycle here has missed it; a row new to the store is on
    the relay, or stamped after `last` while no cycle here has read. -/
structure Change (K : Rows ρ S τ) (v v' : Replica ρ S τ ι) : Prop where
  last : v'.last = v.last
  relay : ∀ r ∈ v.relay, r ∈ v'.relay
  landed : ∀ r ∈ v'.relay, r ∈ v.relay ∨ K.Keeps v'.store r ∨
    (v.last < K.stamp r ∧ ∀ i, ¬ (v'.leg i).Missed r)
  written : ∀ r, K.Local v'.store r → K.Local v.store r ∨ r ∈ v'.relay ∨
    (v.last < K.stamp r ∧ ∀ i, v'.leg i = .unread)
  covers : ∀ r ∈ v.relay, K.Covers v.store r → K.Covers v'.store r
  keeps : (∀ r, K.Keeps v.store r → K.Keeps v'.store r) ∨ ∀ i, v'.leg i = .unread
  seen : v'.seen = v.seen
  began : ∀ i, ∀ r ∈ v'.began i, r ∈ v'.relay
  legs : ∀ i, v'.leg i = v.leg i ∨ LegOk K v' (v'.leg i)

theorem Change.legOk (h : Change K v v') {i : ι} (hleg : v'.leg i = v.leg i)
    (hok : LegOk K v (v.leg i)) : LegOk K v' (v'.leg i) := by
  -- a cycle that has read sees no new row of the store that is not on the relay
  have hwritten : v'.leg i ≠ .unread → ∀ r, K.Local v'.store r →
      K.Local v.store r ∨ r ∈ v'.relay := by
    intro hread r hr
    rcases h.written r hr with hold | hsent | ⟨-, hunread⟩
    · exact .inl hold
    · exact .inr hsent
    · exact absurd (hunread i) hread
  have hkeeps : v'.leg i ≠ .unread → ∀ r, K.Keeps v.store r → K.Keeps v'.store r := by
    intro hread
    rcases h.keeps with hkeeps | hunread
    · exact hkeeps
    · exact absurd (hunread i) hread
  -- nor, once it is answered, a row of the relay that came from elsewhere
  have hlanded : ∀ r ∈ v'.relay, (v'.leg i).Missed r → r ∈ v.relay ∨ K.Keeps v'.store r := by
    intro r hr hmissed
    rcases h.landed r hr with hold | hown | ⟨-, hnone⟩
    · exact .inl hold
    · exact .inr hown
    · exact absurd hmissed (hnone i)
  have hsent : v'.leg i ≠ .unread → AllSent K v → AllSent K v' := by
    intro hread hall r hr
    rcases hwritten hread r hr with hold | hsent
    · exact h.relay r (hall r hold)
    · exact hsent
  rw [← hleg] at hok
  cases hphase : v'.leg i with
  | unread => trivial
  | sending =>
    rw [hphase] at hok hwritten hkeeps
    refine ⟨?_, fun r hr => hkeeps nofun r (hok.2 r hr)⟩
    intro r hr
    rcases hwritten nofun r hr with hold | hsent
    · exact (hok.1 r hold).imp_left (h.relay r)
    · exact .inl hsent
  | sent =>
    rw [hphase] at hok hsent
    exact hsent nofun hok
  | served since awaited =>
    rw [hphase] at hok hsent hkeeps hlanded
    refine ⟨hsent nofun hok.1, ?_⟩
    intro r hr
    by_cases hawaited : awaited r
    · exact .inr (Or.inr hawaited)
    · rcases hlanded r hr hawaited with hold | hown
      · rcases hok.2 r hold with hkept | ⟨hcovered, hle⟩ | hawaited
        · exact .inl (hkeeps nofun r hkept)
        · exact .inr (Or.inl ⟨h.covers r hold hcovered, hle⟩)
        · exact .inr (Or.inr hawaited)
      · exact .inl hown
  | received =>
    rw [hphase] at hok hsent hlanded
    refine ⟨hsent nofun hok.1, ?_⟩
    intro r hr
    rcases hlanded r hr trivial with hold | hown
    · exact h.covers r hold (hok.2 r hold)
    · exact K.covers_of_keeps hown

/-- **One step of a replica or of its relay.** -/
theorem Safe.change (h : Safe K v) (hchange : Change K v v') : Safe K v' where
  unsent := by
    intro r hr
    rw [hchange.last]
    rcases hchange.written r hr with hold | hsent | ⟨hlt, -⟩
    · exact (h.unsent r hold).imp_left (hchange.relay r)
    · exact .inl hsent
    · exact .inr hlt
  unseen := by
    intro r hr
    rw [hchange.last]
    rcases hchange.landed r hr with hold | hown | ⟨hlt, -⟩
    · exact (h.unseen r hold).imp_left (hchange.covers r hold)
    · exact .inl (K.covers_of_keeps hown)
    · exact .inr hlt
  seen := by
    intro r hr
    rw [hchange.seen] at hr
    obtain ⟨hin, hcovered⟩ := h.seen r hr
    exact ⟨hchange.relay r hin, hchange.covers r hin hcovered⟩
  began := hchange.began
  legs := by
    intro i
    rcases hchange.legs i with hleg | hok
    · exact hchange.legOk hleg (h.legs i)
    · exact hok

theorem LegOk.congr (hrelay : v'.relay = v.relay) (hstore : v'.store = v.store) {leg : Leg ρ τ}
    (h : LegOk K v leg) : LegOk K v' leg := by
  cases leg <;> simp only [LegOk, AllSent, hrelay, hstore] at h ⊢ <;> exact h

/-- **A push lands**: rows this replica keeps, or rows stamped after `last` that none of its
    cycles has missed. -/
theorem Safe.grow (h : Safe K v) (rows : List ρ)
    (hrows : ∀ r ∈ rows, r ∈ v.relay ∨ K.Keeps v.store r ∨
      (v.last < K.stamp r ∧ ∀ i, ¬ (v.leg i).Missed r)) :
    Safe K { v with relay := v.relay ++ rows } := by
  refine h.change ⟨rfl, fun r hr => mem_append_left _ hr, ?_, fun r hr => .inl hr,
    fun _ _ hr => hr, Or.inl fun _ hr => hr, rfl,
    fun j r hr => mem_append_left _ (h.began j r hr), fun _ => .inl rfl⟩
  exact forall_mem_append.mpr ⟨fun _ => .inl, hrows⟩

theorem Safe.read (h : Safe K v) {rows : List ρ}
    (hrows : ∀ r, K.Local v.store r → v.last < K.stamp r → r ∈ rows)
    (hkeeps : ∀ r ∈ rows, K.Keeps v.store r) : LegOk K v (.sending (· ∈ rows) rows) :=
  ⟨fun r hr => (h.unsent r hr).imp_right (hrows r hr), hkeeps⟩

variable {since : τ}

theorem Safe.serve (h : Safe K v) (hsent : AllSent K v) (hsince : since ≤ v.last)
    {awaited : ρ → Prop} (hawaited : ∀ r ∈ v.relay, since < K.stamp r → awaited r) :
    LegOk K v (.served since awaited) := by
  refine ⟨hsent, ?_⟩
  intro r hr
  by_cases hlt : since < K.stamp r
  · exact .inr (Or.inr (hawaited r hr hlt))
  · rcases h.unseen r hr with hcovered | hlast
    · exact .inr (Or.inl ⟨hcovered, not_lt.mp hlt⟩)
    · exact absurd (hsince.trans_lt hlast) hlt

section Cycle

variable [DecidableEq ι]

theorem Safe.setLeg (h : Safe K v) (i : ι) {leg : Leg ρ τ} (hok : LegOk K v leg) :
    Safe K { v with leg := update v.leg i leg } := by
  refine { h with legs := ?_ }
  intro j
  apply LegOk.congr rfl rfl
  show LegOk K v (update v.leg i leg j)
  by_cases hj : j = i
  · subst hj
    rw [update_self]
    exact hok
  · rw [update_of_ne hj]
    exact h.legs j

theorem Safe.setBegan (h : Safe K v) (i : ι) {rows : List ρ} (hrows : ∀ r ∈ rows, r ∈ v.relay) :
    Safe K { v with began := update v.began i rows } := by
  refine ⟨h.unsent, h.unseen, h.seen, ?_, fun j => (h.legs j).congr rfl rfl⟩
  intro j r hr
  change r ∈ update v.began i rows j at hr
  by_cases hj : j = i
  · subst hj
    rw [update_self] at hr
    exact hrows r hr
  · rw [update_of_ne hj] at hr
    exact h.began j r hr

/-- **The end of a cycle** that has received: `last` moves to the present. -/
theorem Safe.finish (h : Safe K v) {i : ι} (hok : LegOk K v .received) (now : τ) :
    Safe K { v with
      last := now
      leg := update v.leg i .unread
      began := update v.began i []
      seen := v.began i } := by
  obtain ⟨hsent, hcovered⟩ := hok
  refine ⟨fun r hr => .inl (hsent r hr), fun r hr => .inl (hcovered r hr), ?_, ?_, ?_⟩
  · exact fun r hr => ⟨h.began i r hr, hcovered r (h.began i r hr)⟩
  · exact (h.setBegan i (fun r hr => absurd hr not_mem_nil)).began
  · intro j
    have hidle : LegOk K v .unread := trivial
    exact ((h.setLeg i hidle).legs j).congr rfl rfl

end Cycle

/-! ## §4. Versions under a key -/

section Versions

variable {ν κ : Type} [DecidableEq ν] [LinearOrder κ] {id : ρ → ν} {stamp : ρ → τ} {key : ρ → κ}
  {mine : ρ → Prop}

/-- Rows kept one version an id: a pulled version takes the place of one with no greater key. -/
def versions (id : ρ → ν) (stamp : ρ → τ) (key : ρ → κ) (mine : ρ → Prop) :
    Rows ρ (JsMap ν ρ) τ where
  stamp := stamp
  Local store r := store.get (id r) = some r ∧ mine r
  Keeps store r := ∃ q, store.get (id r) = some q ∧ key r ≤ key q
  Covers store r := ∃ q, store.get (id r) = some q ∧ (key r ≤ key q ∨ stamp r ≤ stamp q)
  covers_of_keeps := fun ⟨q, hq, hle⟩ => ⟨q, hq, Or.inl hle⟩

/-- **A local write**, later than all there is, while no cycle has read. -/
theorem Safe.write {v : Replica ρ (JsMap ν ρ) τ ι} (h : Safe (versions id stamp key mine) v)
    (r : ρ) (hlast : v.last < stamp r) (hunread : ∀ i, v.leg i = .unread)
    (hrelay : ∀ x ∈ v.relay, stamp x ≤ stamp r) :
    Safe (versions id stamp key mine) { v with store := v.store.set (id r) r } := by
  refine h.change ⟨rfl, fun _ hx => hx, fun _ hx => .inl hx, ?_, ?_, Or.inr hunread, rfl,
    h.began, fun _ => .inl rfl⟩
  · rintro x ⟨hget, hmine⟩
    rw [JsMap.get_set] at hget
    split at hget
    · cases hget
      exact .inr (Or.inr ⟨hlast, hunread⟩)
    · exact .inl ⟨hget, hmine⟩
  · rintro x hx ⟨q, hget, hle⟩
    by_cases hid : id x = id r
    · exact ⟨r, by rw [JsMap.get_set, if_pos hid], Or.inr (hrelay x hx)⟩
    · exact ⟨q, by rw [JsMap.get_set, if_neg hid]; exact hget, hle⟩

/-- **Pulled rows arrive**, each settled under its id. -/
theorem Safe.receive {v : Replica ρ (JsMap ν ρ) τ ι} (h : Safe (versions id stamp key mine) v)
    {rows : List ρ} (hserved : LegOk (versions id stamp key mine) v (.served since (· ∈ rows)))
    (hrows : ∀ r ∈ rows, r ∈ v.relay ∧ since < stamp r) {store : JsMap ν ρ}
    (hstore : ∀ k, store.get k = deliver key (v.store.get k) (rows.filter fun r => id r = k)) :
    Safe (versions id stamp key mine) { v with store := store } ∧
      LegOk (versions id stamp key mine) { v with store := store } .received := by
  have hkeeps : ∀ x, (versions id stamp key mine).Keeps v.store x →
      (versions id stamp key mine).Keeps store x := by
    rintro x ⟨q, hget, hle⟩
    obtain ⟨u, hu, hqu⟩ := le_deliver_of_held key
      (rows.filter fun r => id r = id x) (Option.mem_def.mpr hget)
    exact ⟨u, by rw [hstore]; exact hu, hle.trans hqu⟩
  have harrived : ∀ x ∈ rows, (versions id stamp key mine).Keeps store x := by
    intro x hx
    obtain ⟨u, hu, hxu⟩ := le_deliver_of_mem key (v.store.get (id x))
      (mem_filter.mpr ⟨hx, decide_eq_true rfl⟩ : x ∈ rows.filter fun r => id r = id x)
    exact ⟨u, by rw [hstore]; exact hu, hxu⟩
  -- what stands under an id stood there before, or has arrived
  have hstands : ∀ k q, store.get k = some q → v.store.get k = some q ∨ q ∈ rows := by
    intro k q hget
    rw [hstore] at hget
    rcases mem_of_deliver hget with hmem | hheld
    · exact .inr (mem_filter.mp hmem).1
    · exact .inl hheld
  obtain ⟨hsent, hserved⟩ := hserved
  have hcovers : ∀ x ∈ v.relay, (versions id stamp key mine).Covers store x := by
    intro x hx
    rcases hserved x hx with hkept | ⟨⟨q, hget, hle⟩, hsince⟩ | hawaited
    · exact Rows.covers_of_keeps _ (hkeeps x hkept)
    · obtain ⟨u, hu, -⟩ := le_deliver_of_held key
        (rows.filter fun r => id r = id x) (Option.mem_def.mpr hget)
      rw [← hstore] at hu
      rcases hstands (id x) u hu with hsame | harrival
      · obtain rfl : q = u := Option.some.inj (hget.symm.trans hsame)
        exact ⟨q, hu, hle⟩
      · exact ⟨u, hu, Or.inr (hsince.trans (hrows u harrival).2.le)⟩
    · exact Rows.covers_of_keeps _ (harrived x hawaited)
  have hwritten : ∀ x, (versions id stamp key mine).Local store x →
      (versions id stamp key mine).Local v.store x ∨ x ∈ v.relay := by
    rintro x ⟨hget, hmine⟩
    rcases hstands (id x) x hget with hsame | harrival
    · exact .inl ⟨hsame, hmine⟩
    · exact .inr (hrows x harrival).1
  refine ⟨h.change ⟨rfl, fun _ hx => hx, fun _ hx => .inl hx, ?_, fun x hx _ => hcovers x hx,
    Or.inl hkeeps, rfl, h.began, fun _ => .inl rfl⟩, ?_, hcovers⟩
  · intro x hx
    exact (hwritten x hx).imp_right Or.inl
  · intro x hx
    rcases hwritten x hx with hold | hin
    · exact hsent x hold
    · exact hin

end Versions

/-! ## §5. Rows that never change -/

section Additions

variable {ν : Type} [DecidableEq ν] {id : ρ → ν} {stamp : ρ → τ}

/-- Rows that are added and stay: each stands under its id. -/
def additions (id : ρ → ν) (stamp : ρ → τ) : Rows ρ (JsMap ν ρ) τ where
  stamp := stamp
  Local store r := store.get (id r) = some r
  Keeps store r := store.get (id r) = some r
  Covers store r := store.get (id r) = some r
  covers_of_keeps := fun h => h

variable {v : Replica ρ (JsMap ν ρ) τ ι} {awaited : ρ → Prop}

theorem additions_served : LegOk (additions id stamp) v (.served since awaited) ↔
      AllSent (additions id stamp) v ∧
        ∀ r ∈ v.relay, v.store.get (id r) = some r ∨ awaited r := by
  constructor
  · rintro ⟨hsent, hrelay⟩
    refine ⟨hsent, ?_⟩
    intro r hr
    rcases hrelay r hr with hkept | ⟨hkept, -⟩ | hawaited
    · exact .inl hkept
    · exact .inl hkept
    · exact .inr hawaited
  · rintro ⟨hsent, hrelay⟩
    exact ⟨hsent, fun r hr => (hrelay r hr).imp_right Or.inr⟩

/-- **A row is added** under a new id while no cycle has read. -/
theorem Safe.append (h : Safe (additions id stamp) v) (r : ρ) (hnew : v.store.get (id r) = none)
    (hlast : v.last < stamp r) (hunread : ∀ i, v.leg i = .unread) :
    Safe (additions id stamp) { v with store := v.store.set (id r) r } := by
  refine h.change ⟨rfl, fun _ hx => hx, fun _ hx => .inl hx, ?_, ?_, Or.inr hunread, rfl,
    h.began, fun _ => .inl rfl⟩
  · intro x hx
    change (v.store.set (id r) r).get (id x) = some x at hx
    rw [JsMap.get_set] at hx
    split at hx
    · cases hx
      exact .inr (Or.inr ⟨hlast, hunread⟩)
    · exact .inl hx
  · intro x _ hx
    show (v.store.set (id r) r).get (id x) = some x
    rw [JsMap.get_set, if_neg]
    · exact hx
    · intro hid
      change v.store.get (id x) = some x at hx
      rw [hid, hnew] at hx
      cases hx

structure Gains (id : ρ → ν) (v : Replica ρ (JsMap ν ρ) τ ι) (rows : List ρ)
    (store : JsMap ν ρ) : Prop where
  kept : ∀ r, v.store.get (id r) = some r → store.get (id r) = some r
  arrived : ∀ r ∈ rows, store.get (id r) = some r
  only : ∀ r, store.get (id r) = some r → v.store.get (id r) = some r ∨ r ∈ rows
  relay : ∀ r ∈ rows, r ∈ v.relay

variable {rows : List ρ} {store : JsMap ν ρ}

theorem Safe.gather (h : Safe (additions id stamp) v) (hgains : Gains id v rows store) :
    Safe (additions id stamp) { v with store := store } := by
  refine h.change ⟨rfl, fun _ hx => hx, fun _ hx => .inl hx, ?_, fun x _ => hgains.kept x,
    Or.inl hgains.kept, rfl, h.began, fun _ => .inl rfl⟩
  intro x hx
  rcases hgains.only x hx with hold | harrived
  · exact .inl hold
  · exact .inr (Or.inl (hgains.relay x harrived))

theorem LegOk.gather (hgains : Gains id v rows store) {since since' : τ} {awaited' : ρ → Prop}
    (h : LegOk (additions id stamp) v (.served since awaited))
    (hawaited : ∀ r, awaited r → r ∈ rows ∨ awaited' r) :
    LegOk (additions id stamp) { v with store := store } (.served since' awaited') := by
  rw [additions_served] at h ⊢
  refine ⟨?_, ?_⟩
  · intro r hr
    rcases hgains.only r hr with hold | harrived
    · exact h.1 r hold
    · exact hgains.relay r harrived
  · intro r hr
    rcases h.2 r hr with hkept | hwaits
    · exact .inl (hgains.kept r hkept)
    · exact (hawaited r hwaits).imp_left (hgains.arrived r)

theorem LegOk.received (h : LegOk (additions id stamp) v (.served since awaited))
    (hnone : ∀ r, ¬ awaited r) : LegOk (additions id stamp) v .received := by
  rw [additions_served] at h
  exact ⟨h.1, fun r hr => (h.2 r hr).resolve_right (hnone r)⟩

end Additions

/-! ## §6. Engines -/

section Engines

variable {φ β : Type}

/-- A cycle in flight, with what the relay held when it began. -/
structure Cycle (φ β : Type) where
  phase : φ
  began : β

/-- The replica an engine with these cycles in flight is, for one kind of rows. -/
def view (leg : φ → Leg ρ τ) (rows : β → List ρ) (relay : β) (store : S) (last : τ)
    (cycles : ι → Option (Cycle φ β)) (lastBegan : β) : Replica ρ S τ ι where
  relay := rows relay
  store := store
  last := last
  leg i := (cycles i).elim .unread fun c => leg c.phase
  began i := (cycles i).elim [] fun c => rows c.began
  seen := rows lastBegan

variable {K : Rows ρ S τ} {leg : φ → Leg ρ τ} {rows : β → List ρ} {relay : β} {store : S} {last : τ}
  {cycles : ι → Option (Cycle φ β)} {lastBegan : β} {i : ι} {c : Cycle φ β}

omit [LinearOrder τ] in
theorem view_leg (hc : cycles i = some c) :
    (view leg rows relay store last cycles lastBegan).leg i = leg c.phase := by
  simp only [view, hc, Option.elim_some]

omit [LinearOrder τ] in
theorem view_unread (h : ∀ i c, cycles i = some c → leg c.phase = .unread) (i : ι) :
    (view leg rows relay store last cycles lastBegan).leg i = .unread := by
  cases hc : cycles i with
  | none => simp only [view, hc, Option.elim_none]
  | some c => rw [view_leg hc, h i c hc]

omit [LinearOrder τ] in
theorem view_not_missed {r : ρ} (h : ∀ i c, cycles i = some c → ¬ (leg c.phase).Missed r)
    (i : ι) : ¬ ((view leg rows relay store last cycles lastBegan).leg i).Missed r := by
  cases hc : cycles i with
  | none =>
    simp only [view, hc, Option.elim_none]
    exact fun hmissed => hmissed
  | some c =>
    rw [view_leg hc]
    exact h i c hc

theorem Safe.legOk (h : Safe K (view leg rows relay store last cycles lastBegan))
    (hc : cycles i = some c) :
    LegOk K (view leg rows relay store last cycles lastBegan) (leg c.phase) := by
  have hleg := h.legs i
  rwa [view_leg hc] at hleg

theorem Safe.beganOk (h : Safe K (view leg rows relay store last cycles lastBegan))
    (hc : cycles i = some c) : ∀ r ∈ rows c.began, r ∈ rows relay := by
  intro r hr
  apply h.began i r
  simpa only [view, hc, Option.elim_some] using hr

/-- **A push lands**: rows this replica keeps, or may still be told of. -/
theorem Safe.growOpen (h : Safe K (view leg rows relay store last cycles lastBegan)) (new : List ρ)
    (hnew : ∀ r ∈ new, r ∈ rows relay ∨ K.Keeps store r ∨
      (last < K.stamp r ∧ ∀ i c, cycles i = some c → ¬ (leg c.phase).Missed r)) :
    Safe K { view leg rows relay store last cycles lastBegan with relay := rows relay ++ new } :=
  h.grow new fun r hr => (hnew r hr).imp_right (Or.imp_right (And.imp_right view_not_missed))

theorem Safe.blank (hstore : ∀ r, ¬ K.Local store r) (hrelay : rows relay = [])
    (hbegan : rows lastBegan = []) :
    Safe K (view leg rows relay store last (fun _ : ι => none) lastBegan) where
  unsent r hr := absurd hr (hstore r)
  unseen r hr := absurd (hrelay ▸ hr : r ∈ []) not_mem_nil
  seen r hr := absurd (hbegan ▸ hr : r ∈ []) not_mem_nil
  began _ _ hr := absurd hr not_mem_nil
  legs _ := trivial

variable [DecidableEq ι]

omit [LinearOrder τ] in
theorem view_update (cycle : Option (Cycle φ β)) :
    view leg rows relay store last (update cycles i cycle) lastBegan =
      { view leg rows relay store last cycles lastBegan with
        leg := update (view leg rows relay store last cycles lastBegan).leg i
          (cycle.elim .unread fun c => leg c.phase)
        began := update (view leg rows relay store last cycles lastBegan).began i
          (cycle.elim [] fun c => rows c.began) } := by
  unfold view
  congr 1
  all_goals
    funext j
    by_cases hj : j = i
    · subst hj
      simp only [update_self]
    · simp only [update_of_ne hj]

section

variable (h : Safe K (view leg rows relay store last cycles lastBegan))
include h

/-- **A cycle moves on** to a phase whose leg holds. -/
theorem Safe.goTo (hbegan : ∀ r ∈ rows c.began, r ∈ rows relay)
    (hok : LegOk K (view leg rows relay store last cycles lastBegan) (leg c.phase)) :
    Safe K (view leg rows relay store last (update cycles i (some c)) lastBegan) := by
  rw [view_update]
  exact (h.setLeg i hok).setBegan i hbegan

theorem Safe.drop (i : ι) :
    Safe K (view leg rows relay store last (update cycles i none) lastBegan) := by
  have hidle : LegOk K (view leg rows relay store last cycles lastBegan) .unread := trivial
  have hnone : ∀ r ∈ ([] : List ρ), r ∈ rows relay := nofun
  rw [view_update]
  exact (h.setLeg i hidle).setBegan i hnone

/-- **A cycle ends.** -/
theorem Safe.endCycle (hc : cycles i = some c)
    (hok : LegOk K (view leg rows relay store last cycles lastBegan) .received) (now : τ) :
    Safe K (view leg rows relay store now (update cycles i none) c.began) := by
  have hfinish := h.finish (i := i) hok now
  rw [view_update]
  simpa only [view, hc, Option.elim_some, Option.elim_none] using hfinish

end

theorem cycle_of_put {j : ι} {c' : Cycle φ β} (hc : update cycles i (some c) j = some c') :
    c' = c ∨ cycles j = some c' := by
  by_cases hj : j = i
  · subst hj
    rw [update_self] at hc
    exact .inl (Option.some.inj hc).symm
  · rw [update_of_ne hj] at hc
    exact .inr hc

theorem cycle_of_removed {j : ι} (hc : update cycles i none j = some c) : cycles j = some c := by
  by_cases hj : j = i
  · subst hj
    rw [update_self] at hc
    cases hc
  · rwa [update_of_ne hj] at hc

end Engines

end Motebit.Lib.StampSync
