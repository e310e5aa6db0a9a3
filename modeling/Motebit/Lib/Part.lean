/-
  Motebit.Lib.Part — PROGRAMS ON ONE PART OF A STORE, alone or among others.

  A part is a component that can be read and replaced.  A program over the part's own state
  becomes a program over the whole store.  Where a thread owns the part, so that others leave
  it alone but for what the part's own environment may do, what was shown of the program on
  the part by itself holds of it in the whole system.

  A program may also be evaluated by itself, against given answers.

  Main results: `Safe.on`, `eval_on`, `Ensures.lodged_bind`, `Ensures.lodged_ask`.
-/

import Motebit.Lib.Task

namespace Motebit.Lib

/-! ## §1. Parts -/

/-- A component of a store. -/
structure Part (σ ρ : Type) where
  get : σ → ρ
  put : ρ → σ → σ
  get_put : ∀ r s, get (put r s) = r
  put_get : ∀ s, put (get s) s = s
  put_put : ∀ r r' s, put r (put r' s) = put r s

def Part.whole {σ : Type} : Part σ σ := ⟨id, fun r _ => r, fun _ _ => rfl, fun _ => rfl, fun _ _ _ => rfl⟩

namespace Prog

variable {σ ρ Req : Type} {Resp : Req → Type} {ε α β : Type}

/-- A program over the part, run on the whole store. -/
def on (part : Part σ ρ) : Prog ρ Req Resp α → Prog σ Req Resp α
  | .done a => .done a
  | .atomic f k => .atomic (fun s => part.put (f (part.get s)) s) fun s => (k (part.get s)).on part
  | .await r k => .await r fun a => (k a).on part

/-! ## §2. Evaluation -/

/-- The program by itself, its requests answered by `o`. -/
def eval (o : ∀ r, Resp r) : Prog σ Req Resp α → σ → α × σ
  | .done a, s => (a, s)
  | .atomic f k, s => (k s).eval o (f s)
  | .await r k, s => (k (o r)).eval o s

theorem eval_bind (o : ∀ r, Resp r) (x : Prog σ Req Resp α) (g : α → Prog σ Req Resp β) (s : σ) :
    (x.bind g).eval o s = (g (x.eval o s).1).eval o (x.eval o s).2 := by
  induction x generalizing s with
  | done => rfl
  | atomic f k ih => exact ih s (f s)
  | await r k ih => exact ih (o r) s

/-- **Evaluation on the whole store is evaluation on the part.** -/
theorem eval_on (part : Part σ ρ) (o : ∀ r, Resp r) (x : Prog ρ Req Resp α) (s : σ) :
    (x.on part).eval o s = ((x.eval o (part.get s)).1, part.put (x.eval o (part.get s)).2 s) := by
  induction x generalizing s with
  | done a =>
    show (a, s) = (a, part.put (part.get s) s)
    rw [part.put_get]
  | atomic f k ih =>
    show ((k (part.get s)).on part).eval o (part.put (f (part.get s)) s) = _
    rw [ih, part.get_put, part.put_put]
    rfl
  | await r k ih => exact ih (o r) s

end Prog

namespace Task

variable {σ ρ Req : Type} {Resp : Req → Type} {ε α β : Type}

/-- A task over the part, run on the whole store. -/
def on (part : Part σ ρ) (x : Task ρ Req Resp ε α) : Task σ Req Resp ε α :=
  ExceptT.mk (x.run.on part)

/-- How the task ends, and in which store, its requests answered by `o`. -/
def eval (o : ∀ r, Resp r) (x : Task σ Req Resp ε α) (s : σ) : Except ε α × σ := x.run.eval o s

variable (o : ∀ r, Resp r) (s : σ)

@[simp] theorem eval_pure (a : α) : eval o (pure a : Task σ Req Resp ε α) s = (.ok a, s) := rfl

@[simp] theorem eval_throw (e : ε) :
    eval o (throw e : Task σ Req Resp ε α) s = (.error e, s) := rfl

@[simp] theorem eval_read (g : σ → β) :
    eval o (read g : Task σ Req Resp ε β) s = (.ok (g s), s) := rfl

@[simp] theorem eval_act (f : σ → β × σ) :
    eval o (act f : Task σ Req Resp ε β) s = (.ok (f s).1, (f s).2) := rfl

@[simp] theorem eval_modify (f : σ → σ) :
    eval o (modify f : Task σ Req Resp ε Unit) s = (.ok (), f s) := rfl

@[simp] theorem eval_ask (r : Req) :
    eval o (ask r : Task σ Req Resp ε (Resp r)) s = (.ok (o r), s) := rfl

theorem eval_bind (x : Task σ Req Resp ε α) (g : α → Task σ Req Resp ε β) :
    eval o (x >>= g) s
      = match eval o x s with
        | (.ok a, s') => eval o (g a) s'
        | (.error e, s') => (.error e, s') := by
  unfold eval
  rw [run_bind, Prog.eval_bind]
  cases h : x.run.eval o s with
  | mk r => cases r <;> rfl

variable {g : α → Task σ Req Resp ε β}

theorem eval_bind_ok {x : Task σ Req Resp ε α} {a : α} {s' : σ}
    (h : eval o x s = (.ok a, s')) : eval o (x >>= g) s = eval o (g a) s' := by
  rw [eval_bind, h]

theorem eval_andFinally (x : Task σ Req Resp ε α) (c : Task σ Req Resp ε Unit) :
    eval o (andFinally x c) s = ((eval o x s).1, (eval o c (eval o x s).2).2) := by
  show ((x.run.bind fun r => c.run.bind fun _ => .done r).eval o s) = _
  rw [Prog.eval_bind, Prog.eval_bind]
  rfl

theorem eval_on (part : Part σ ρ) (x : Task ρ Req Resp ε α) : eval o (x.on part) s
      = ((eval o x (part.get s)).1, part.put (eval o x (part.get s)).2 s) :=
  Prog.eval_on part o x.run s

/-- Evaluated from a store with `L` the task returns with `Q` or throws with `E`. -/
def Yields (o : ∀ r, Resp r) (x : Task σ Req Resp ε α) (L : σ → Prop) (Q : α → σ → Prop)
    (E : ε → σ → Prop) : Prop :=
  ∀ s, L s → match eval o x s with
    | (.ok a, s') => Q a s'
    | (.error e, s') => E e s'

section

variable {o} {L : σ → Prop} {Q : α → σ → Prop} {E : ε → σ → Prop}

variable {x : Task σ Req Resp ε α}

theorem Yields.bind {R : β → σ → Prop} (hx : Yields o x L Q E)
    (hg : ∀ a, Yields o (g a) (Q a) R E) : Yields o (x >>= g) L R E := by
  intro s hl
  have hfirst := hx s hl
  rw [eval_bind]
  cases h : eval o x s with
  | mk r s' =>
    rw [h] at hfirst
    cases r with
    | ok a => exact hg a s' hfirst
    | error => exact hfirst

variable {Q' : α → σ → Prop} {E' : ε → σ → Prop}

theorem Yields.mono {L' : σ → Prop} (h : Yields o x L Q E)
    (hL : ∀ s, L' s → L s) (hQ : ∀ a s, Q a s → Q' a s) (hE : ∀ e s, E e s → E' e s) :
    Yields o x L' Q' E' := by
  intro s hl
  have hend := h s (hL s hl)
  cases heval : eval o x s with
  | mk r s' =>
    rw [heval] at hend
    cases r with
    | ok a => exact hQ a s' hend
    | error e => exact hE e s' hend

theorem Yields.pure {a : α} (h : ∀ s, L s → Q a s) :
    Yields o (Pure.pure a : Task σ Req Resp ε α) L Q E := h

theorem Yields.throw {e : ε} (h : ∀ s, L s → E e s) :
    Yields o (throw e : Task σ Req Resp ε α) L Q E := h

theorem Yields.act {f : σ → α × σ} (h : ∀ s, L s → Q (f s).1 (f s).2) :
    Yields o (Task.act f : Task σ Req Resp ε α) L Q E := h

theorem Yields.read {g : σ → α} (h : ∀ s, L s → Q (g s) s) :
    Yields o (Task.read g : Task σ Req Resp ε α) L Q E := h

theorem Yields.modify {f : σ → σ} {R : Unit → σ → Prop} (h : ∀ s, L s → R () (f s)) :
    Yields o (Task.modify f : Task σ Req Resp ε Unit) L R E := h

theorem Yields.ask {r : Req} {R : Resp r → σ → Prop} (h : ∀ s, L s → R (o r) s) :
    Yields o (Task.ask r : Task σ Req Resp ε (Resp r)) L R E := h

theorem Yields.catching {ε' : Type} {E' : ε' → σ → Prop} {handler : ε → Task σ Req Resp ε' α}
    (hx : Yields o x L Q E) (hh : ∀ e, Yields o (handler e) (E e) Q E') :
    Yields o (catching x handler) L Q E' := by
  intro s hl
  have hfirst := hx s hl
  have hcatch : eval o (Task.catching x handler) s = match eval o x s with
      | (.ok a, s') => (.ok a, s')
      | (.error e, s') => eval o (handler e) s' := by
    unfold eval
    show (x.run.bind _).eval o s = _
    rw [Prog.eval_bind]
    cases x.run.eval o s with
    | mk r => cases r <;> rfl
  rw [hcatch]
  cases h : eval o x s with
  | mk r s' =>
    rw [h] at hfirst
    cases r with
    | ok => exact hfirst
    | error e => exact hh e s' hfirst

theorem Yields.andFinally {c : Task σ Req Resp ε Unit}
    (hx : Yields o x L Q E) (hok : ∀ a s, Q a s → Q' a (eval o c s).2)
    (herr : ∀ e s, E e s → E' e (eval o c s).2) : Yields o (andFinally x c) L Q' E' := by
  intro s hl
  have hfirst := hx s hl
  rw [eval_andFinally]
  cases h : eval o x s with
  | mk r s' =>
    rw [h] at hfirst
    cases r with
    | ok a => exact hok a s' hfirst
    | error e => exact herr e s' hfirst

theorem Yields.on {part : Part σ ρ} {M : ρ → Prop} {R : α → ρ → Prop} {F : ε → ρ → Prop}
    {x : Task ρ Req Resp ε α} (hx : Yields o x M R F) (hL : ∀ s, L s → M (part.get s))
    (hQ : ∀ s a v, L s → R a v → Q a (part.put v s))
    (hE : ∀ s e v, L s → F e v → E e (part.put v s)) : Yields o (x.on part) L Q E := by
  intro s hl
  have hpart := hx _ (hL s hl)
  rw [eval_on]
  cases h : eval o x (part.get s) with
  | mk r v =>
    rw [h] at hpart
    cases r with
    | ok a => exact hQ s a v hl hpart
    | error e => exact hE s e v hl hpart

end

end Task

/-! ## §3. The owner of a part -/

namespace Protocol

variable {σ ρ Req : Type} {Resp : Req → Type} {ε α : Type} {W : World σ Req Resp}
  {V : World ρ Req Resp}

/-- Thread `t` owns the part of the store while `own` holds: its steps on the part are within
    its guarantee, and others leave the part to it and to the part's environment. -/
structure Owns (P : Protocol W) (R : Protocol V) (part : Part σ ρ) (t u : Nat)
    (own : σ → Prop) : Prop where
  inv : ∀ s, P.Inv s → own s → R.Inv (part.get s)
  answer : ∀ s r a s', W.answer s r a s' → s' = s ∧ ∀ v, V.answer v r a v
  step : ∀ s v, P.Inv s → own s → R.Inv v → R.Guar u (part.get s) v →
    P.Inv (part.put v s) ∧ P.Guar t s (part.put v s) ∧ own (part.put v s)
  rely : ∀ s s', P.Inv s → P.Inv s' → P.Rely t s s' → own s →
    own s' ∧ (part.get s' = part.get s ∨ V.env (part.get s) (part.get s'))

variable {P : Protocol W} {R : Protocol V} {part : Part σ ρ} {t u : Nat} {own : σ → Prop}

theorem Owns.stable (h : Owns P R part t u own) {L : ρ → Prop} (hL : R.Stable u L) :
    P.Stable t fun s => own s ∧ L (part.get s) := by
  rintro s s' hi hi' hr ⟨hown, hl⟩
  obtain ⟨hown', hsame | henv⟩ := h.rely s s' hi hi' hr hown
  · exact ⟨hown', hsame ▸ hl⟩
  · exact ⟨hown', hL _ _ (h.inv s hi hown) (h.inv s' hi' hown') (.inr henv) hl⟩

/-- **A proof about the part alone is a proof about its owner.** -/
theorem Safe.on (h : Owns P R part t u own) {x : Prog ρ Req Resp α} {L : ρ → Prop}
    {Q : α → ρ → Prop} (hx : R.Safe u x L Q) :
    P.Safe t (x.on part) (fun s => own s ∧ L (part.get s)) fun a s => own s ∧ Q a (part.get s) := by
  induction x generalizing L with
  | done => exact fun s hi hl => ⟨hl.1, hx _ (h.inv s hi hl.1) hl.2⟩
  | atomic f k ih =>
    intro s hi hl
    obtain ⟨hinv, hguar, L', hst, hl', hk⟩ := hx _ (h.inv s hi hl.1) hl.2
    obtain ⟨hinv', hguar', hown⟩ := h.step s _ hi hl.1 hinv hguar
    refine ⟨hinv', hguar', _, h.stable hst, ⟨hown, ?_⟩, ih _ hk⟩
    rw [part.get_put]
    exact hl'
  | await r k ih =>
    intro s a s' hi hl ha
    obtain ⟨rfl, hans⟩ := h.answer s r a s' ha
    obtain ⟨-, -, L', hst, hl', hk⟩ := hx _ a _ (h.inv s' hi hl.1) hl.2 (hans _)
    exact ⟨hi, P.refl t s', _, h.stable hst, ⟨hl.1, hl'⟩, ih a hk⟩

theorem Ensures.on (h : Owns P R part t u own) {x : Task ρ Req Resp ε α} {L : ρ → Prop}
    {Q : α → ρ → Prop} {E : ε → ρ → Prop} (hx : R.Ensures u x L Q E) :
    P.Ensures t (x.on part) (fun s => own s ∧ L (part.get s))
      (fun a s => own s ∧ Q a (part.get s)) fun e s => own s ∧ E e (part.get s) := by
  refine .post (Safe.on h hx) fun r s _ hr => ?_
  cases r with
  | ok | error => exact hr

end Protocol

/-! ## §4. Many at once

Programs of one kind, each with a part of its own in one store, mark their requests: who asks is
then part of the question. -/

section

variable {σ ρ ι Req : Type} {Resp : Req → Type} {ε ε' α β : Type}

/-- The program over the part, run on the whole store, its requests marked with `i`. -/
def Prog.lodged (part : Part σ ρ) (i : ι) :
    Prog ρ Req Resp α → Prog σ (ι × Req) (fun q => Resp q.2) α
  | .done a => .done a
  | .atomic f k =>
    .atomic (fun s => part.put (f (part.get s)) s) fun s => (k (part.get s)).lodged part i
  | .await r k => .await (i, r) fun a => (k a).lodged part i

theorem Prog.lodged_bind (part : Part σ ρ) (i : ι) (x : Prog ρ Req Resp α)
    (g : α → Prog ρ Req Resp β) :
    (x.bind g).lodged part i = (x.lodged part i).bind fun a => (g a).lodged part i := by
  induction x with
  | done => rfl
  | atomic f k ih =>
    show Prog.atomic _ (fun s => ((k (part.get s)).bind g).lodged part i) = Prog.atomic _ _
    congr 1
    funext s
    exact ih (part.get s)
  | await r k ih =>
    show Prog.await (i, r) (fun a => ((k a).bind g).lodged part i) = Prog.await _ _
    congr 1
    funext a
    exact ih a

/-- A task over the part, its requests marked. -/
def Task.lodged (part : Part σ ρ) (i : ι) (x : Task ρ Req Resp ε α) :
    Task σ (ι × Req) (fun q => Resp q.2) ε α :=
  ExceptT.mk (x.run.lodged part i)

theorem Task.lodged_bind (part : Part σ ρ) (i : ι) (x : Task ρ Req Resp ε α)
    (g : α → Task ρ Req Resp ε β) :
    (x >>= g).lodged part i = x.lodged part i >>= fun a => (g a).lodged part i := by
  show ((x.run.bind _).lodged part i) = _
  rw [Prog.lodged_bind]
  show (x.run.lodged part i).bind _ = (x.run.lodged part i).bind _
  congr 1
  funext r
  cases r <;> rfl

theorem Task.lodged_catching (part : Part σ ρ) (i : ι) (x : Task ρ Req Resp ε α)
    (h : ε → Task ρ Req Resp ε' α) : (Task.catching x h).lodged part i
      = Task.catching (x.lodged part i) fun e => (h e).lodged part i := by
  show ((x.run.bind _).lodged part i) = _
  rw [Prog.lodged_bind]
  show (x.run.lodged part i).bind _ = (x.run.lodged part i).bind _
  congr 1
  funext r
  cases r <;> rfl

end

namespace Protocol

variable {σ ρ ι Req : Type} {Resp : Req → Type} {ε ε' α β : Type}
  {W : World σ (ι × Req) fun q => Resp q.2} {P : Protocol W} {part : Part σ ρ} {i : ι} {t : Nat}
  {L : σ → Prop} {Q : α → σ → Prop} {E : ε → σ → Prop}

theorem Ensures.lodged_bind {x : Task ρ Req Resp ε α} {g : α → Task ρ Req Resp ε β}
    {R : β → σ → Prop} (hx : P.Ensures t (x.lodged part i) L Q E)
    (hg : ∀ a, P.Ensures t ((g a).lodged part i) (Q a) R E) :
    P.Ensures t ((x >>= g).lodged part i) L R E := by
  rw [Task.lodged_bind]
  exact hx.bind hg

theorem Ensures.lodged_catching {E' : ε' → σ → Prop} {x : Task ρ Req Resp ε α}
    {h : ε → Task ρ Req Resp ε' α} (hx : P.Ensures t (x.lodged part i) L Q E)
    (hh : ∀ e, P.Ensures t ((h e).lodged part i) (E e) Q E') :
    P.Ensures t ((Task.catching x h).lodged part i) L Q E' := by
  rw [Task.lodged_catching]
  exact hx.catching hh

/-- **One awaited request**, marked. -/
theorem Ensures.lodged_ask {r : Req} {Q : Resp r → σ → Prop} (hQ : ∀ a, P.Stable t (Q a))
    (h : ∀ s a s', P.Inv s → L s → W.answer s (i, r) a s' → P.Inv s' ∧ P.Guar t s s' ∧ Q a s') :
    P.Ensures t ((Task.ask r : Task ρ Req Resp ε (Resp r)).lodged part i) L Q E :=
  Ensures.ask (r := (i, r)) hQ h

/-- **One write** to the part. -/
theorem Ensures.lodged_modify {f : ρ → ρ} {Q : Unit → σ → Prop} (hQ : ∀ a, P.Stable t (Q a))
    (h : ∀ s, P.Inv s → L s → P.Inv (part.put (f (part.get s)) s) ∧
      P.Guar t s (part.put (f (part.get s)) s) ∧ Q () (part.put (f (part.get s)) s)) :
    P.Ensures t ((Task.modify f : Task ρ Req Resp ε Unit).lodged part i) L Q E :=
  Ensures.act (f := fun s => ((), part.put (f (part.get s)) s)) hQ h

/-- **One read** of the part. -/
theorem Ensures.lodged_read {g : ρ → α} (hQ : ∀ a, P.Stable t (Q a))
    (h : ∀ s, P.Inv s → L s → Q (g (part.get s)) s) :
    P.Ensures t ((Task.read g : Task ρ Req Resp ε α).lodged part i) L Q E := by
  refine .act (f := fun s => (g (part.get s), part.put (part.get s) s)) hQ ?_
  intro s hi hl
  rw [part.put_get]
  exact ⟨hi, P.refl t s, h s hi hl⟩

end Protocol

end Motebit.Lib
