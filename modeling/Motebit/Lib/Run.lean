/-
  Motebit.Lib.Run — ONE PROGRAM RUN TO ITS END.

  `Runs W p s tr a s'` says that the program `p`, started in the store `s` with nothing but the
  environment beside it, may end with `a` in the store `s'`; `tr` lists the requests it sent
  with their answers.

  Main results:
    * `Walk.beside`, `Walk.resume`, `Runs.reachable` — such a run, or a part of it, is a run of
      the whole system beside threads that stand still.
    * `Runs.bind_inv`, `runs_bind`, `runs_txn`, `runs_ask`, `runs_tryCatch` — a run of a
      composed program is composed of runs.
    * `Protocol.Safe.runs`, `Protocol.Safe.walk` — a verified program keeps its guarantee on every
      run beside others.
    * `Prog.play_walk` — running a program on scripted answers is one of its runs.
-/

import Motebit.Lib.Task

namespace Motebit.Lib

open Function

variable {σ Req : Type} {Resp : Req → Type} {α β ε : Type}

/-! ## §1. Runs -/

inductive Runs (W : World σ Req Resp) :
    Prog σ Req Resp α → σ → List (Σ r, Resp r) → α → σ → Prop
  | done {a : α} {s : σ} : Runs W (.done a) s [] a s
  | atomic {f : σ → σ} {k : σ → Prog σ Req Resp α} {s s' : σ} {tr : List (Σ r, Resp r)} {a : α} :
      Runs W (k s) (f s) tr a s' → Runs W (.atomic f k) s tr a s'
  | await {r : Req} {k : Resp r → Prog σ Req Resp α} {s s₁ s' : σ} {x : Resp r}
      {tr : List (Σ r, Resp r)} {a : α} :
      W.answer s r x s₁ → Runs W (k x) s₁ tr a s' → Runs W (.await r k) s (⟨r, x⟩ :: tr) a s'
  | env {p : Prog σ Req Resp α} {s s₁ s' : σ} {tr : List (Σ r, Resp r)} {a : α} :
      W.env s s₁ → Runs W p s₁ tr a s' → Runs W p s tr a s'

/-- The environment alone. -/
abbrev World.Drift (W : World σ Req Resp) : σ → σ → Prop := Relation.ReflTransGen W.env

variable {W : World σ Req Resp} {s s' : σ} {tr : List (Σ r, Resp r)} {p : Prog σ Req Resp α} {a : α}
  {q : Prog σ Req Resp Unit} {r : Except ε α} {c : Config σ Req Resp} {x : Task σ Req Resp ε α}
  {s₁ : σ}

theorem Runs.drift (hd : W.Drift s s₁) (h : Runs W p s₁ tr a s') : Runs W p s tr a s' := by
  induction hd using Relation.ReflTransGen.head_induction_on with
  | refl => exact h
  | head he _ ih => exact .env he ih

theorem Runs.trail {s₂ : σ} (h : Runs W p s tr a s') (hd : W.Drift s' s₂) : Runs W p s tr a s₂ := by
  induction h with
  | done => exact .drift hd .done
  | atomic _ ih => exact .atomic (ih hd)
  | await ha _ ih => exact .await ha (ih hd)
  | env he _ ih => exact .env he (ih hd)

/-- The program `p` in the store `s` may get to the program `q` in the store `s'`. -/
inductive Walk (W : World σ Req Resp) :
    Prog σ Req Resp α → σ → Prog σ Req Resp α → σ → Prop
  | refl {p : Prog σ Req Resp α} {s : σ} : Walk W p s p s
  | atomic {f : σ → σ} {k : σ → Prog σ Req Resp α} {q : Prog σ Req Resp α} {s s' : σ} :
      Walk W (k s) (f s) q s' → Walk W (.atomic f k) s q s'
  | await {r : Req} {k : Resp r → Prog σ Req Resp α} {q : Prog σ Req Resp α} {s s₁ s' : σ}
      {x : Resp r} : W.answer s r x s₁ → Walk W (k x) s₁ q s' → Walk W (.await r k) s q s'
  | env {p q : Prog σ Req Resp α} {s s₁ s' : σ} :
      W.env s s₁ → Walk W p s₁ q s' → Walk W p s q s'

theorem Walk.trans {q r : Prog σ Req Resp α} (h : Walk W p s q s₁) (h' : Walk W q s₁ r s') :
    Walk W p s r s' := by
  induction h with
  | refl => exact h'
  | atomic _ ih => exact .atomic (ih h')
  | await ha _ ih => exact .await ha (ih h')
  | env he _ ih => exact .env he (ih h')

theorem Runs.walk (h : Runs W p s tr a s') : Walk W p s (.done a) s' := by
  induction h with
  | done => exact .refl
  | atomic _ ih => exact .atomic ih
  | await ha _ ih => exact .await ha ih
  | env he _ ih => exact .env he ih

/-- **A walk of one thread is a run of the system**: the other threads stand where they
    stood. -/
theorem Walk.steps {p : Prog σ Req Resp Unit} (h : Walk W p s q s') {t : Nat} :
    ∀ c : Config σ Req Resp, c.store = s → c.thread t = some p →
      ∃ c', Relation.ReflTransGen W.Step c c' ∧ c'.store = s' ∧ c'.thread t = some q ∧
        (∀ u, u ≠ t → c'.thread u = c.thread u) ∧ c'.next = c.next := by
  induction h with
  | refl => exact fun c hc ht => ⟨c, .refl, hc, ht, fun _ _ => rfl, rfl⟩
  | @atomic f k q s s' _ ih =>
    intro c hc ht
    subst hc
    obtain ⟨c', hsteps, hstore, hthread, hothers, hnext⟩ := ih ⟨f c.store,
      update c.thread t (some (k c.store)), c.next⟩ rfl (update_self ..)
    refine ⟨c', .head (.act c t f _ ht) hsteps, hstore, hthread, fun u hu => ?_, hnext⟩
    exact (hothers u hu).trans (update_of_ne hu ..)
  | @await r k q s s₁ s' x ha _ ih =>
    intro c hc ht
    subst hc
    obtain ⟨c', hsteps, hstore, hthread, hothers, hnext⟩ := ih ⟨s₁,
      update c.thread t (some (k x)), c.next⟩ rfl (update_self ..)
    refine ⟨c', .head (.answer c t r _ x s₁ ht ha) hsteps, hstore, hthread, fun u hu => ?_, hnext⟩
    exact (hothers u hu).trans (update_of_ne hu ..)
  | @env p q s s₁ s' he _ ih =>
    intro c hc ht
    subst hc
    obtain ⟨c', hsteps, hrest⟩ := ih ⟨s₁, c.thread, c.next⟩ rfl ht
    exact ⟨c', .head (.env c s₁ he) hsteps, hrest⟩

theorem Walk.beside {p : Prog σ Req Resp Unit} (hreach : W.Reachable c) (hentry : W.entry c.next p)
    (h : Walk W p c.store q s') : ∃ c', W.Reachable c' ∧ c'.store = s' ∧ c'.thread c.next = some q ∧
      (∀ u, u ≠ c.next → c'.thread u = c.thread u) ∧ c'.next = c.next + 1 := by
  obtain ⟨c', hsteps, hstore, hthread, hothers, hnext⟩ := h.steps
    ⟨c.store, update c.thread c.next (some p), c.next + 1⟩ rfl (update_self ..)
  refine ⟨c', Protocol.reachable_later (hreach.step (.spawn c p hentry)) hsteps, hstore, hthread,
    fun u hu => ?_, hnext⟩
  exact (hothers u hu).trans (update_of_ne hu ..)

theorem Walk.resume {p : Prog σ Req Resp Unit} {t : Nat} (hreach : W.Reachable c)
    (ht : c.thread t = some p) (h : Walk W p c.store q s') :
    ∃ c', W.Reachable c' ∧ c'.store = s' ∧ c'.thread t = some q ∧
      (∀ u, u ≠ t → c'.thread u = c.thread u) ∧ c'.next = c.next := by
  obtain ⟨c', hsteps, hrest⟩ := h.steps c rfl ht
  exact ⟨c', Protocol.reachable_later hreach hsteps, hrest⟩

theorem Runs.reachable {p : Prog σ Req Resp Unit} {u : Unit} (hreach : W.Reachable c)
    (hentry : W.entry c.next p) (h : Runs W p c.store tr u s') :
    ∃ c', W.Reachable c' ∧ c'.store = s' := by
  obtain ⟨c', hreach', hstore, -⟩ := h.walk.beside hreach hentry
  exact ⟨c', hreach', hstore⟩

/-! ## §2. Taking runs apart -/

theorem Runs.done_inv {b : α} (h : Runs W (.done a) s tr b s') :
    tr = [] ∧ b = a ∧ W.Drift s s' := by
  generalize hp : Prog.done a = p at h
  induction h with
  | done => cases hp; exact ⟨rfl, rfl, .refl⟩
  | atomic | await => cases hp
  | env he _ ih =>
    obtain ⟨htr, hb, hd⟩ := ih hp
    exact ⟨htr, hb, .head he hd⟩

theorem Runs.atomic_inv {f : σ → σ} {k : σ → Prog σ Req Resp α} (h : Runs W (.atomic f k) s tr a s') :
    ∃ s₁, W.Drift s s₁ ∧ Runs W (k s₁) (f s₁) tr a s' := by
  generalize hp : Prog.atomic f k = p at h
  induction h with
  | done => cases hp
  | atomic hk _ => cases hp; exact ⟨_, .refl, hk⟩
  | await => cases hp
  | env he _ ih =>
    obtain ⟨s₁, hd, hk⟩ := ih hp
    exact ⟨s₁, .head he hd, hk⟩

theorem Runs.await_inv {r : Req} {k : Resp r → Prog σ Req Resp α}
    (h : Runs W (.await r k) s tr a s') :
    ∃ s₁ x s₂ tr', W.Drift s s₁ ∧ W.answer s₁ r x s₂ ∧ Runs W (k x) s₂ tr' a s' ∧
      tr = ⟨r, x⟩ :: tr' := by
  generalize hp : Prog.await r k = p at h
  induction h with
  | done | atomic => cases hp
  | await ha hk _ => cases hp; exact ⟨_, _, _, _, .refl, ha, hk, rfl⟩
  | env he _ ih =>
    obtain ⟨s₁, x, s₂, tr', hd, hrest⟩ := ih hp
    exact ⟨s₁, x, s₂, tr', .head he hd, hrest⟩

/-- **Sequencing.** -/
theorem Runs.bind_inv {g : α → Prog σ Req Resp β} {b : β} (h : Runs W (p.bind g) s tr b s') :
    ∃ a s₁ tr₁ tr₂, Runs W p s tr₁ a s₁ ∧ Runs W (g a) s₁ tr₂ b s' ∧ tr = tr₁ ++ tr₂ := by
  induction p generalizing s tr with
  | done a => exact ⟨a, s, [], tr, .done, h, rfl⟩
  | atomic f k ih =>
    obtain ⟨s₁, hd, hk⟩ := Runs.atomic_inv h
    obtain ⟨a, s₂, tr₁, tr₂, hp, hg, htr⟩ := ih s₁ hk
    exact ⟨a, s₂, tr₁, tr₂, .drift hd (.atomic hp), hg, htr⟩
  | await r k ih =>
    obtain ⟨s₁, x, s₂, tr', hd, ha, hk, rfl⟩ := Runs.await_inv h
    obtain ⟨a, s₃, tr₁, tr₂, hp, hg, rfl⟩ := ih x hk
    exact ⟨a, s₃, ⟨r, x⟩ :: tr₁, tr₂, .drift hd (.await ha hp), hg, rfl⟩

variable {tr' : List (Σ r, Resp r)}

theorem Runs.bind {g : α → Prog σ Req Resp β} {b : β}
    (hp : Runs W p s tr a s₁) (hg : Runs W (g a) s₁ tr' b s') :
    Runs W (p.bind g) s (tr ++ tr') b s' := by
  induction hp with
  | done => exact hg
  | atomic _ ih => exact .atomic (ih hg)
  | await ha _ ih => exact .await ha (ih hg)
  | env he _ ih => exact .env he (ih hg)

/-! ## §3. Tasks -/

variable {g : α → Task σ Req Resp ε β}

theorem Runs.andThen {r : Except ε β} (hx : Runs W x.run s tr (.ok a) s₁)
    (hg : Runs W (g a).run s₁ tr' r s') : Runs W (x >>= g).run s (tr ++ tr') r s' :=
  Runs.bind hx hg

theorem Runs.detach (h : Runs W x.run s tr r s') : Runs W x.detach s (tr ++ []) () s' :=
  Runs.bind h .done

theorem runs_pure (h : Runs W (Pure.pure a : Task σ Req Resp ε α).run s tr r s') :
    tr = [] ∧ r = .ok a ∧ W.Drift s s' := Runs.done_inv h

theorem runs_throw {e : ε} (h : Runs W (throw e : Task σ Req Resp ε α).run s tr r s') :
    tr = [] ∧ r = .error e ∧ W.Drift s s' := Runs.done_inv h

theorem runs_bind {r : Except ε β} (h : Runs W (x >>= g).run s tr r s') :
    (∃ a s₁ tr₁ tr₂, Runs W x.run s tr₁ (.ok a) s₁ ∧ Runs W (g a).run s₁ tr₂ r s' ∧
      tr = tr₁ ++ tr₂) ∨
    ∃ e, Runs W x.run s tr (.error e) s' ∧ r = .error e := by
  obtain ⟨a, s₁, tr₁, tr₂, hx, hg, rfl⟩ := h.bind_inv
  cases a with
  | ok a => exact .inl ⟨a, s₁, tr₁, tr₂, hx, hg, rfl⟩
  | error e =>
    obtain ⟨rfl, rfl, hd⟩ := Runs.done_inv hg
    refine .inr ⟨e, ?_, rfl⟩
    rw [List.append_nil]
    exact hx.trail hd

theorem runs_txn {f : σ → Except ε (α × σ)}
    (h : Runs W (Task.txn f : Task σ Req Resp ε α).run s tr r s') : ∃ s₁, W.Drift s s₁ ∧ tr = [] ∧
      ((∃ a s₂, f s₁ = .ok (a, s₂) ∧ r = .ok a ∧ W.Drift s₂ s') ∨
        ∃ e, f s₁ = .error e ∧ r = .error e ∧ W.Drift s₁ s') := by
  obtain ⟨s₁, hd, hk⟩ := Runs.atomic_inv h
  obtain ⟨htr, hr, hd'⟩ := Runs.done_inv hk
  refine ⟨s₁, hd, htr, ?_⟩
  dsimp only at hr hd'
  cases hf : f s₁ with
  | ok p =>
    obtain ⟨a, s₂⟩ := p
    rw [hf] at hr hd'
    exact .inl ⟨a, s₂, rfl, hr, hd'⟩
  | error e =>
    rw [hf] at hr hd'
    exact .inr ⟨e, rfl, hr, hd'⟩

theorem runs_act {f : σ → α × σ} (h : Runs W (Task.act f : Task σ Req Resp ε α).run s tr r s') :
    ∃ s₁, W.Drift s s₁ ∧ tr = [] ∧ r = .ok (f s₁).1 ∧ W.Drift (f s₁).2 s' := by
  obtain ⟨s₁, hd, htr, ⟨a, s₂, hf, hr, hd'⟩ | ⟨e, hf, -⟩⟩ := runs_txn h
  · have heq : f s₁ = (a, s₂) := Except.ok.inj hf
    refine ⟨s₁, hd, htr, ?_, ?_⟩
    · rw [heq]
      exact hr
    · rw [heq]
      exact hd'
  · cases hf

theorem runs_ask {q : Req} {r : Except ε (Resp q)}
    (h : Runs W (Task.ask q : Task σ Req Resp ε (Resp q)).run s tr r s') :
    ∃ s₁ x s₂, W.Drift s s₁ ∧ W.answer s₁ q x s₂ ∧ W.Drift s₂ s' ∧ tr = [⟨q, x⟩] ∧
      r = .ok x := by
  obtain ⟨s₁, x, s₂, tr', hd, ha, hk, rfl⟩ := Runs.await_inv h
  obtain ⟨rfl, rfl, hd'⟩ := Runs.done_inv hk
  exact ⟨s₁, x, s₂, hd, ha, hd', rfl, rfl⟩

theorem runs_tryCatch {g : ε → Task σ Req Resp ε α} (h : Runs W (tryCatch x g).run s tr r s') :
    (∃ a, Runs W x.run s tr (.ok a) s' ∧ r = .ok a) ∨
    ∃ e s₁ tr₁ tr₂, Runs W x.run s tr₁ (.error e) s₁ ∧ Runs W (g e).run s₁ tr₂ r s' ∧
      tr = tr₁ ++ tr₂ := by
  obtain ⟨a, s₁, tr₁, tr₂, hx, hg, rfl⟩ := h.bind_inv
  cases a with
  | ok a =>
    obtain ⟨rfl, rfl, hd⟩ := Runs.done_inv hg
    refine .inl ⟨a, ?_, rfl⟩
    rw [List.append_nil]
    exact hx.trail hd
  | error e => exact .inr ⟨e, s₁, tr₁, tr₂, hx, hg, rfl⟩

/-! ## §4. Beside other threads -/

/-- The same world, where the environment takes any step the whole system may take. -/
def World.alongside (W : World σ Req Resp) : World σ Req Resp where
  init := W.init
  entry := W.entry
  answer := W.answer
  env s s' := ∃ c c', W.Reachable c ∧ W.Step c c' ∧ c.store = s ∧ c'.store = s'
  crash := W.crash

namespace Protocol

variable {P : Protocol W} {t : Nat}

/-- A step from one store the invariant holds in to another: the thread's own, or another's. -/
def Link (P : Protocol W) (t : Nat) (s s' : σ) : Prop :=
  P.Inv s ∧ P.Inv s' ∧ (P.Guar t s s' ∨ P.Rely t s s')

variable {W' : World σ Req Resp} {Q : α → σ → Prop}

/-- **A verified program on a run beside others**: every step is linked to the next, and the
    program ends as promised. -/
theorem Safe.runs {p : Prog σ Req Resp α} {L : σ → Prop} {a : α}
    (h : P.Safe t p L Q) (hanswer : ∀ s r x s', W'.answer s r x s' → W.answer s r x s')
    (henv : ∀ s s', P.Inv s → W'.env s s' → P.Inv s' ∧ P.Rely t s s')
    (hr : Runs W' p s tr a s') (hst : P.Stable t L) (hi : P.Inv s) (hl : L s) : P.Inv s' ∧ Q a s' ∧ Relation.ReflTransGen (P.Link t) s s' := by
  induction hr generalizing L with
  | done => exact ⟨hi, h _ hi hl, .refl⟩
  | atomic _ ih =>
    obtain ⟨hinv, hguar, L', hst', hl', hk⟩ := h _ hi hl
    obtain ⟨hinv', hq, hpath⟩ := ih hk hst' hinv hl'
    exact ⟨hinv', hq, .head ⟨hi, hinv, .inl hguar⟩ hpath⟩
  | await ha _ ih =>
    obtain ⟨hinv, hguar, L', hst', hl', hk⟩ := h _ _ _ hi hl (hanswer _ _ _ _ ha)
    obtain ⟨hinv', hq, hpath⟩ := ih hk hst' hinv hl'
    exact ⟨hinv', hq, .head ⟨hi, hinv, .inl hguar⟩ hpath⟩
  | env he _ ih =>
    obtain ⟨hinv, hrely⟩ := henv _ _ hi he
    obtain ⟨hinv', hq, hpath⟩ := ih h hst hinv (hst _ _ hi hinv hrely hl)
    exact ⟨hinv', hq, .head ⟨hi, hinv, .inr hrely⟩ hpath⟩

/-- **A verified program part of the way**: the invariant holds, and the rest is safe from an
    assertion that holds. -/
theorem Safe.walk {p q : Prog σ Req Resp α} {L : σ → Prop}
    (h : P.Safe t p L Q) (hanswer : ∀ s r x s', W'.answer s r x s' → W.answer s r x s')
    (henv : ∀ s s', P.Inv s → W'.env s s' → P.Inv s' ∧ P.Rely t s s')
    (hw : Walk W' p s q s') (hst : P.Stable t L) (hi : P.Inv s) (hl : L s) :
    P.Inv s' ∧ ∃ L', L' s' ∧ P.Safe t q L' Q := by
  induction hw generalizing L with
  | refl => exact ⟨hi, L, hl, h⟩
  | atomic _ ih =>
    obtain ⟨hinv, -, L', hst', hl', hk⟩ := h _ hi hl
    exact ih hk hst' hinv hl'
  | await ha _ ih =>
    obtain ⟨hinv, -, L', hst', hl', hk⟩ := h _ _ _ hi hl (hanswer _ _ _ _ ha)
    exact ih hk hst' hinv hl'
  | env he _ ih =>
    obtain ⟨hinv, hrely⟩ := henv _ _ hi he
    exact ih h hst hinv (hst _ _ hi hinv hrely hl)

end Protocol

/-! ## §5. Played runs -/

/-- The program run to its end where the `n`-th request `r` is answered with `script n r`, which
    `hears` records in the store. -/
def Prog.play (hears : (r : Req) → Resp r → σ → σ) (script : ℕ → (r : Req) → Resp r) :
    ℕ → Prog σ Req Resp α → σ → α × σ
  | _, .done a, s => (a, s)
  | n, .atomic f k, s => play hears script n (k s) (f s)
  | n, .await r k, s => play hears script (n + 1) (k (script n r)) (hears r (script n r) s)

theorem Prog.play_walk {hears : (r : Req) → Resp r → σ → σ} {script : ℕ → (r : Req) → Resp r}
    (hanswer : ∀ n r s, W.answer s r (script n r) (hears r (script n r) s))
    (p : Prog σ Req Resp α) (n : ℕ) (s : σ) :
    Walk W p s (.done (Prog.play hears script n p s).1) (Prog.play hears script n p s).2 := by
  induction p generalizing n s with
  | done => exact .refl
  | atomic f k ih => exact .atomic (ih s n (f s))
  | await r k ih => exact .await (hanswer n r s) (ih _ (n + 1) _)

end Motebit.Lib
