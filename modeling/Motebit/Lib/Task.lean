/-
  Motebit.Lib.Task — ASYNCHRONOUS FUNCTIONS THAT MAY THROW, and their rules.

  A task is a program of `Motebit.Lib.Async` that ends with a value or an exception.  Its
  store steps are transactions: one that throws leaves the store as it was.

  `Protocol.Ensures t x L Q E` says that, started where `L` holds, every step of the task `x`
  keeps the invariant and thread `t`'s guarantee, that it ends with `Q` if it returns and
  with `E` if it throws.

  Main results:
    * `Ensures.bind`, `Ensures.txn`, `Ensures.ask`, `Ensures.tryCatch`, `Ensures.andFinally`
      and `Ensures.forEach` — one rule for each way a task is built.
    * `Ensures.detach` — a verified task may run as a thread of its own.
    * `Calm.txn`, `Calm.act` — steps of a kind the environment takes too keep every assertion
      framed against that kind.
-/

import Motebit.Lib.Async

namespace Motebit.Lib

/-! ## §1. Tasks -/

/-- An asynchronous function over a store `σ` that returns an `α` or throws an `ε`. -/
abbrev Task (σ Req : Type) (Resp : Req → Type) (ε α : Type) := ExceptT ε (Prog σ Req Resp) α

namespace Task

variable {σ Req : Type} {Resp : Req → Type} {ε α β γ : Type}

/-- One statement or transaction; a throw leaves the store as it was. -/
def txn (f : σ → Except ε (β × σ)) : Task σ Req Resp ε β :=
  ExceptT.mk (Prog.run fun s =>
    match f s with
    | .ok (b, s') => (.ok b, s')
    | .error e => (.error e, s))

/-- An atomic step that does not throw. -/
def act (f : σ → β × σ) : Task σ Req Resp ε β := txn fun s => .ok (f s)

def read (g : σ → β) : Task σ Req Resp ε β := act fun s => (g s, s)

/-- Write the store. -/
def modify (f : σ → σ) : Task σ Req Resp ε Unit := act fun s => ((), f s)

/-- Send a request and wait for its answer. -/
def ask (r : Req) : Task σ Req Resp ε (Resp r) :=
  ExceptT.mk ((Prog.request r).bind fun a => .done (.ok a))

/-- `try { body } catch (e) { handler(e) }`, where the handler throws errors of another type. -/
def catching {ε' : Type} (body : Task σ Req Resp ε α) (handler : ε → Task σ Req Resp ε' α) :
    Task σ Req Resp ε' α :=
  ExceptT.mk (body.run.bind fun
    | .ok a => .done (.ok a)
    | .error e => (handler e).run)

def andFinally (body : Task σ Req Resp ε α) (cleanup : Task σ Req Resp ε Unit) :
    Task σ Req Resp ε α :=
  ExceptT.mk (body.run.bind fun r => cleanup.run.bind fun _ => .done r)

/-- Do `body` for each element, in order. -/
def forEach (body : γ → Task σ Req Resp ε Unit) : List γ → Task σ Req Resp ε Unit
  | [] => pure ()
  | x :: xs => do
    body x
    forEach body xs

/-- The task as a thread of its own: how it ends is nobody's business. -/
def detach (x : Task σ Req Resp ε α) : Prog σ Req Resp Unit := x.run.bind fun _ => .done ()

theorem run_bind (x : Task σ Req Resp ε α) (g : α → Task σ Req Resp ε β) :
    (x >>= g).run = x.run.bind fun
      | .ok a => (g a).run
      | .error e => .done (.error e) := rfl

theorem run_tryCatch (x : Task σ Req Resp ε α) (h : ε → Task σ Req Resp ε α) :
    (tryCatch x h).run = x.run.bind fun
      | .ok a => .done (.ok a)
      | .error e => (h e).run := rfl

end Task

/-! ## §2. Rules -/

namespace Protocol

variable {σ Req : Type} {Resp : Req → Type} {W : World σ Req Resp} {P : Protocol W} {ε α β γ : Type}
  {t : Nat}

/-- What holds at the end of a task, whichever way it ends. -/
def Post (Q : α → σ → Prop) (E : ε → σ → Prop) : Except ε α → σ → Prop
  | .ok a => Q a
  | .error e => E e

/-- The task is safe from `L`, returns with `Q` and throws with `E`. -/
def Ensures (P : Protocol W) (t : Nat) (x : Task σ Req Resp ε α) (L : σ → Prop)
    (Q : α → σ → Prop) (E : ε → σ → Prop) : Prop :=
  P.Safe t x.run L (Post Q E)

variable {L : σ → Prop} {Q : α → σ → Prop} {E : ε → σ → Prop} {x : Task σ Req Resp ε α}

theorem Ensures.mono {L' : σ → Prop} (h : P.Ensures t x L Q E) (hL : ∀ s, P.Inv s → L' s → L s) :
    P.Ensures t x L' Q E :=
  Safe.mono h hL

theorem Ensures.of_pure {c : Prop} (h : c → P.Ensures t x L Q E) :
    P.Ensures t x (fun s => L s ∧ c) Q E :=
  Safe.of_pure h

theorem Ensures.of_exists {L : γ → σ → Prop} (h : ∀ c, P.Ensures t x (L c) Q E) :
    P.Ensures t x (fun s => ∃ c, L c s) Q E :=
  Safe.of_exists h

variable {Q' : α → σ → Prop} {E' : ε → σ → Prop}

theorem Ensures.weaken (h : P.Ensures t x L Q E)
    (hQ : ∀ a s, P.Inv s → Q a s → Q' a s) (hE : ∀ e s, P.Inv s → E e s → E' e s) :
    P.Ensures t x L Q' E' := by
  refine .post h fun r s hi hr => ?_
  cases r with
  | ok a => exact hQ a s hi hr
  | error e => exact hE e s hi hr

theorem Ensures.pure {a : α} (h : ∀ s, P.Inv s → L s → Q a s) :
    P.Ensures t (Pure.pure a : Task σ Req Resp ε α) L Q E := h

theorem Ensures.throw {e : ε} (h : ∀ s, P.Inv s → L s → E e s) :
    P.Ensures t (throw e : Task σ Req Resp ε α) L Q E := h

/-- **Sequencing.** -/
theorem Ensures.bind {g : α → Task σ Req Resp ε β} {R : β → σ → Prop} (hx : P.Ensures t x L Q E)
    (hg : ∀ a, P.Ensures t (g a) (Q a) R E) : P.Ensures t (x >>= g) L R E := by
  unfold Ensures
  rw [Task.run_bind]
  refine .bind hx fun r => ?_
  cases r with
  | ok a => exact hg a
  | error => exact fun _ _ he => he

/-- **Framing.** -/
theorem Ensures.frame {F : σ → Prop}
    (hown : ∀ s s', P.Inv s → P.Inv s' → P.Guar t s s' → F s → F s') (hF : P.Stable t F)
    (h : P.Ensures t x L Q E) :
    P.Ensures t x (fun s => L s ∧ F s) (fun a s => Q a s ∧ F s) fun e s => E e s ∧ F s := by
  refine .post (Safe.frame hown hF h) fun r s _ hr => ?_
  cases r with
  | ok | error => exact hr

/-- **One transaction.**  A throw changes nothing. -/
theorem Ensures.txn {f : σ → Except ε (α × σ)} (hQ : ∀ a, P.Stable t (Q a))
    (hE : ∀ e, P.Stable t (E e))
    (hok : ∀ s a s', P.Inv s → L s → f s = .ok (a, s') → P.Inv s' ∧ P.Guar t s s' ∧ Q a s')
    (herr : ∀ s e, P.Inv s → L s → f s = .error e → E e s) :
    P.Ensures t (Task.txn f : Task σ Req Resp ε α) L Q E := by
  refine .run (fun r => ?_) fun s hi hl => ?_
  · cases r with
    | ok a => exact hQ a
    | error e => exact hE e
  · cases hf : f s with
    | ok r =>
      obtain ⟨a, s'⟩ := r
      exact hok s a s' hi hl hf
    | error e => exact ⟨hi, P.refl t s, herr s e hi hl hf⟩

/-- **One atomic step.** -/
theorem Ensures.act {f : σ → α × σ} (hQ : ∀ a, P.Stable t (Q a))
    (h : ∀ s, P.Inv s → L s → P.Inv (f s).2 ∧ P.Guar t s (f s).2 ∧ Q (f s).1 (f s).2) :
    P.Ensures t (Task.act f : Task σ Req Resp ε α) L Q E := by
  intro s hi hl
  obtain ⟨hinv, hguar, hq⟩ := h s hi hl
  exact ⟨hinv, hguar, Q (f s).1, hQ _, hq, fun _ _ hq' => hq'⟩

/-- **One read.** -/
theorem Ensures.read {g : σ → α} (hQ : ∀ a, P.Stable t (Q a)) (h : ∀ s, P.Inv s → L s → Q (g s) s) :
    P.Ensures t (Task.read g : Task σ Req Resp ε α) L Q E :=
  Ensures.act hQ fun s hi hl => ⟨hi, P.refl t s, h s hi hl⟩

/-- **One awaited request.** -/
theorem Ensures.ask {r : Req} {Q : Resp r → σ → Prop} (hQ : ∀ a, P.Stable t (Q a))
    (h : ∀ s a s', P.Inv s → L s → W.answer s r a s' → P.Inv s' ∧ P.Guar t s s' ∧ Q a s') :
    P.Ensures t (Task.ask r : Task σ Req Resp ε (Resp r)) L Q E :=
  Safe.bind (Safe.request hQ h) fun _ => fun _ _ hq => hq

/-- **Catching.** -/
theorem Ensures.tryCatch {F : ε → σ → Prop} {h : ε → Task σ Req Resp ε α} (hx : P.Ensures t x L Q F)
    (hh : ∀ e, P.Ensures t (h e) (F e) Q E) : P.Ensures t (tryCatch x h) L Q E := by
  unfold Ensures
  rw [Task.run_tryCatch]
  refine .bind hx fun r => ?_
  cases r with
  | ok => exact fun _ _ hq => hq
  | error e => exact hh e

theorem Ensures.catching {ε' : Type} {E' : ε' → σ → Prop} {h : ε → Task σ Req Resp ε' α}
    (hx : P.Ensures t x L Q E) (hh : ∀ e, P.Ensures t (h e) (E e) Q E') :
    P.Ensures t (Task.catching x h) L Q E' := by
  refine Safe.bind hx fun r => ?_
  cases r with
  | ok => exact fun _ _ hq => hq
  | error e => exact hh e

/-- **`finally`**: the cleanup runs after either ending. -/
theorem Ensures.andFinally {c : Task σ Req Resp ε Unit}
    (hx : P.Ensures t x L Q E) (hok : ∀ a, P.Ensures t c (Q a) (fun _ => Q' a) fun _ => Q' a)
    (herr : ∀ e, P.Ensures t c (E e) (fun _ => E' e) fun _ => E' e) :
    P.Ensures t (Task.andFinally x c) L Q' E' := by
  refine Safe.bind hx fun r => ?_
  cases r with
  | ok a => exact .bind (hok a) fun r' => by cases r' <;> exact fun _ _ hq => hq
  | error e => exact .bind (herr e) fun r' => by cases r' <;> exact fun _ _ hq => hq

/-- **A loop over a list** keeps what its body keeps for every element. -/
theorem Ensures.forEach {body : γ → Task σ Req Resp ε Unit} {xs : List γ}
    (hbody : ∀ x ∈ xs, P.Ensures t (body x) L (fun _ => L) E) :
    P.Ensures t (Task.forEach body xs) L (fun _ => L) E := by
  induction xs with
  | nil => exact .pure fun _ _ hl => hl
  | cons x xs ih =>
    refine (hbody x List.mem_cons_self).bind fun _ => ?_
    exact ih fun y hy => hbody y (List.mem_cons_of_mem _ hy)

/-- **A thread of its own.** -/
theorem Ensures.detach (h : P.Ensures t x L Q E) : P.Safe t x.detach L fun _ _ => True :=
  Safe.bind h fun _ => fun _ _ _ => trivial

/-! ## §3. Quiet steps

Most steps of a thread do no more than the environment may: they are of one kind, `Quiet`,
that every thread may take. -/

section

variable {Quiet : σ → σ → Prop}

/-- `Quiet` steps are within every guarantee, and the environment takes only such. -/
structure Calm (P : Protocol W) (Quiet : σ → σ → Prop) : Prop where
  guar : ∀ t s s', Quiet s s' → P.Guar t s s'
  env : ∀ s s', P.Inv s → W.env s s' → Quiet s s'

/-- Neither another thread's steps nor a quiet step breaks `L`. -/
structure Framed (P : Protocol W) (Quiet : σ → σ → Prop) (t : Nat) (L : σ → Prop) : Prop where
  others : ∀ u s s', P.Inv s → P.Inv s' → u ≠ t → P.Guar u s s' → L s → L s'
  quiet : ∀ s s', P.Inv s → P.Inv s' → Quiet s s' → L s → L s'

theorem Framed.const (c : Prop) : Framed P Quiet t fun _ => c :=
  ⟨fun _ _ _ _ _ _ _ h => h, fun _ _ _ _ _ h => h⟩

theorem Framed.and {L' : σ → Prop} (h : Framed P Quiet t L) (h' : Framed P Quiet t L') :
    Framed P Quiet t fun s => L s ∧ L' s where
  others u s s' hi hi' hu hg hl :=
    ⟨h.others u s s' hi hi' hu hg hl.1, h'.others u s s' hi hi' hu hg hl.2⟩
  quiet s s' hi hi' hq hl := ⟨h.quiet s s' hi hi' hq hl.1, h'.quiet s s' hi hi' hq hl.2⟩

theorem Framed.imp (c : Prop) (h : Framed P Quiet t L) : Framed P Quiet t fun s => c → L s where
  others u s s' hi hi' hu hg hl hc := h.others u s s' hi hi' hu hg (hl hc)
  quiet s s' hi hi' hq hl hc := h.quiet s s' hi hi' hq (hl hc)

theorem Framed.forall_mem {L : γ → σ → Prop} (h : ∀ x, Framed P Quiet t (L x)) (xs : List γ) :
    Framed P Quiet t fun s => ∀ x ∈ xs, L x s where
  others u s s' hi hi' hu hg hl x hx := (h x).others u s s' hi hi' hu hg (hl x hx)
  quiet s s' hi hi' hq hl x hx := (h x).quiet s s' hi hi' hq (hl x hx)

theorem Calm.stable (hc : Calm P Quiet) (h : Framed P Quiet t L) : P.Stable t L := by
  intro s s' hi hi' hr hl
  rcases hr with ⟨u, hu, hg⟩ | he
  · exact h.others u s s' hi hi' hu hg hl
  · exact h.quiet s s' hi hi' (hc.env s s' hi he) hl

theorem Calm.txn (hc : Calm P Quiet) (hL : Framed P Quiet t L) (hE : ∀ e, P.Stable t (E e))
    {f : σ → Except ε (β × σ)}
    (hok : ∀ s b s', P.Inv s → L s → f s = .ok (b, s') → P.Inv s' ∧ Quiet s s')
    (herr : ∀ s e, P.Inv s → L s → f s = .error e → E e s) :
    P.Ensures t (Task.txn f) L (fun _ => L) E := by
  refine .txn (fun _ => hc.stable hL) hE ?_ herr
  intro s b s' hi hl hf
  obtain ⟨hinv, hq⟩ := hok s b s' hi hl hf
  exact ⟨hinv, hc.guar t s s' hq, hL.quiet s s' hi hinv hq hl⟩

theorem Calm.step (hc : Calm P Quiet) (hL : Framed P Quiet t L) {f : σ → α × σ}
    (h : ∀ s, P.Inv s → L s → P.Inv (f s).2 ∧ Quiet s (f s).2) :
    P.Ensures t (Task.act f) L (fun _ => L) E := by
  refine .act (fun _ => hc.stable hL) fun s hi hl => ?_
  obtain ⟨hinv, hq⟩ := h s hi hl
  exact ⟨hinv, hc.guar t s _ hq, hL.quiet s (f s).2 hi hinv hq hl⟩

end

end Protocol

end Motebit.Lib
