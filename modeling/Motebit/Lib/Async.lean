/-
  Motebit.Lib.Async — ASYNCHRONOUS PROGRAMS over a shared store, and a rely-guarantee rule
  for them.

  A program is a tree of atomic store steps and awaited requests.  Any number of programs run
  interleaved over one store; each await may be answered at any later moment, or never; the
  environment may change the store between any two steps; and at any moment the process may
  die, which removes every running program and leaves a store `crash` relates to the old one.

  To prove an invariant of such a system, give each thread a guarantee (what its own steps may
  do to the store) and check each program against local assertions that the other threads'
  guarantees and the environment cannot break.

  Main results:
    * `Safe.bind`, `Safe.frame`, `Safe.run`, `Safe.request` — the rules for building `Safe`
      proofs.
    * `Protocol.sound` — if every program that may start is safe, the invariant holds in every
      reachable configuration.
    * `Protocol.sound_later` — what every step preserves, every later configuration has.
-/

import Mathlib.Tactic.Common
import Mathlib.Logic.Function.Basic
import Mathlib.Logic.Relation

namespace Motebit.Lib

open Function

/-! ## §1. Programs -/

/-- A program over a store `σ`.  `atomic f k` replaces the store `s` by `f s` and goes on as
    `k s`; `await r k` waits for an answer to `r`. -/
inductive Prog (σ : Type) (Req : Type) (Resp : Req → Type) (α : Type) : Type
  | done (a : α)
  | atomic (f : σ → σ) (k : σ → Prog σ Req Resp α)
  | await (r : Req) (k : Resp r → Prog σ Req Resp α)

namespace Prog

variable {σ Req : Type} {Resp : Req → Type} {α β γ : Type}

/-- Sequencing. -/
def bind : Prog σ Req Resp α → (α → Prog σ Req Resp β) → Prog σ Req Resp β
  | .done a, g => g a
  | .atomic f k, g => .atomic f fun s => (k s).bind g
  | .await r k, g => .await r fun a => (k a).bind g

instance : Monad (Prog σ Req Resp) where
  pure := .done
  bind := .bind

/-- One atomic step that also returns a value. -/
def run (f : σ → β × σ) : Prog σ Req Resp β :=
  .atomic (fun s => (f s).2) fun s => .done (f s).1

/-- Send a request and wait for its answer. -/
def request (r : Req) : Prog σ Req Resp (Resp r) := .await r .done

end Prog

/-! ## §2. Configurations and steps -/

section

variable {σ Req : Type} {Resp : Req → Type}

/-- The world programs run in: which programs a thread may start as, how a request may be
    answered, what the environment and a process death may do to the store. -/
structure World (σ Req : Type) (Resp : Req → Type) where
  init : σ → Prop
  entry : Nat → Prog σ Req Resp Unit → Prop
  answer : σ → (r : Req) → Resp r → σ → Prop
  env : σ → σ → Prop
  crash : σ → σ → Prop

/-- A store and the programs running over it; thread ids from `next` on are unused. -/
structure Config (σ Req : Type) (Resp : Req → Type) where
  store : σ
  thread : Nat → Option (Prog σ Req Resp Unit)
  next : Nat

/-- One step of the whole system. -/
inductive World.Step (W : World σ Req Resp) : Config σ Req Resp → Config σ Req Resp → Prop
  | spawn (c : Config σ Req Resp) (p : Prog σ Req Resp Unit) (hp : W.entry c.next p) :
      Step W c ⟨c.store, update c.thread c.next (some p), c.next + 1⟩
  | act (c : Config σ Req Resp) (t : Nat) (f : σ → σ) (k : σ → Prog σ Req Resp Unit)
      (ht : c.thread t = some (.atomic f k)) :
      Step W c ⟨f c.store, update c.thread t (some (k c.store)), c.next⟩
  | answer (c : Config σ Req Resp) (t : Nat) (r : Req) (k : Resp r → Prog σ Req Resp Unit)
      (a : Resp r) (s : σ) (ht : c.thread t = some (.await r k)) (ha : W.answer c.store r a s) :
      Step W c ⟨s, update c.thread t (some (k a)), c.next⟩
  | env (c : Config σ Req Resp) (s : σ) (he : W.env c.store s) :
      Step W c ⟨s, c.thread, c.next⟩
  | crash (c : Config σ Req Resp) (s : σ) (hc : W.crash c.store s) :
      Step W c ⟨s, fun _ => none, c.next⟩

/-- Configurations some interleaving leads to, from no running program. -/
inductive World.Reachable (W : World σ Req Resp) : Config σ Req Resp → Prop
  | init (s : σ) (hs : W.init s) : Reachable W ⟨s, fun _ => none, 0⟩
  | step {c c' : Config σ Req Resp} : Reachable W c → W.Step c c' → Reachable W c'

/-! ## §3. Rely and guarantee -/

/-- The proof's side of a world: the invariant, what each thread's steps may do, and what
    holds of a thread id that was never used. -/
structure Protocol (W : World σ Req Resp) where
  Inv : σ → Prop
  Guar : Nat → σ → σ → Prop
  Fresh : Nat → σ → Prop
  refl : ∀ t s, Guar t s s

namespace Protocol

variable {W : World σ Req Resp} (P : Protocol W)

/-- What a thread sees happen between two of its own steps. -/
def Rely (t : Nat) (s s' : σ) : Prop := (∃ u, u ≠ t ∧ P.Guar u s s') ∨ W.env s s'

/-- An assertion the others cannot break. -/
def Stable (t : Nat) (L : σ → Prop) : Prop :=
  ∀ s s', P.Inv s → P.Inv s' → P.Rely t s s' → L s → L s'

/-- From stores satisfying `L`, every step of the program keeps the invariant and the
    guarantee, and it ends with `Q`. -/
def Safe {α : Type} (t : Nat) : Prog σ Req Resp α → (σ → Prop) → (α → σ → Prop) → Prop
  | .done a, L, Q => ∀ s, P.Inv s → L s → Q a s
  | .atomic f k, L, Q => ∀ s, P.Inv s → L s →
      P.Inv (f s) ∧ P.Guar t s (f s) ∧
      ∃ L', P.Stable t L' ∧ L' (f s) ∧ Safe t (k s) L' Q
  | .await r k, L, Q => ∀ s a s', P.Inv s → L s → W.answer s r a s' →
      P.Inv s' ∧ P.Guar t s s' ∧
      ∃ L', P.Stable t L' ∧ L' s' ∧ Safe t (k a) L' Q

variable {P} {t : Nat} {α β : Type}

variable {p : Prog σ Req Resp α} {L L' : σ → Prop} {Q : α → σ → Prop} {c c' : Config σ Req Resp}

theorem Safe.mono (h : P.Safe t p L Q) (hL : ∀ s, P.Inv s → L' s → L s) : P.Safe t p L' Q := by
  cases p with
  | done | atomic => exact fun s hi hl => h s hi (hL s hi hl)
  | await => exact fun s a s' hi hl ha => h s a s' hi (hL s hi hl) ha

theorem Safe.of_pure {c : Prop} (h : c → P.Safe t p L Q) : P.Safe t p (fun s => L s ∧ c) Q := by
  cases p with
  | done | atomic => exact fun s hi hl => h hl.2 s hi hl.1
  | await => exact fun s a s' hi hl ha => h hl.2 s a s' hi hl.1 ha

theorem Safe.of_exists {γ : Type} {L : γ → σ → Prop} (h : ∀ x, P.Safe t p (L x) Q) :
    P.Safe t p (fun s => ∃ x, L x s) Q := by
  cases p with
  | done | atomic =>
    rintro s hi ⟨x, hl⟩
    exact h x s hi hl
  | await =>
    rintro s a s' hi ⟨x, hl⟩ ha
    exact h x s a s' hi hl ha

theorem Safe.post {Q' : α → σ → Prop} (h : P.Safe t p L Q) (hQ : ∀ a s, P.Inv s → Q a s → Q' a s) :
    P.Safe t p L Q' := by
  induction p generalizing L with
  | done a => exact fun s hi hl => hQ a s hi (h s hi hl)
  | atomic f k ih =>
    intro s hi hl
    obtain ⟨hinv, hguar, L', hst, hl', hk⟩ := h s hi hl
    exact ⟨hinv, hguar, L', hst, hl', ih s hk⟩
  | await r k ih =>
    intro s a s' hi hl ha
    obtain ⟨hinv, hguar, L', hst, hl', hk⟩ := h s a s' hi hl ha
    exact ⟨hinv, hguar, L', hst, hl', ih a hk⟩

/-- **Sequencing**: the first part ends in stable assertions the second may assume. -/
theorem Safe.bind {g : α → Prog σ Req Resp β} {R : β → σ → Prop} (hp : P.Safe t p L Q)
    (hg : ∀ a, P.Safe t (g a) (Q a) R) : P.Safe t (p.bind g) L R := by
  induction p generalizing L with
  | done a => exact (hg a).mono hp
  | atomic f k ih =>
    intro s hi hl
    obtain ⟨hinv, hguar, L', hst, hl', hk⟩ := hp s hi hl
    exact ⟨hinv, hguar, L', hst, hl', ih s hk⟩
  | await r k ih =>
    intro s a s' hi hl ha
    obtain ⟨hinv, hguar, L', hst, hl', hk⟩ := hp s a s' hi hl ha
    exact ⟨hinv, hguar, L', hst, hl', ih a hk⟩

/-- **Framing**: what neither the thread itself nor the others can break may be carried
    along. -/
theorem Safe.frame {F : σ → Prop} (hown : ∀ s s', P.Inv s → P.Inv s' → P.Guar t s s' → F s → F s')
    (hF : P.Stable t F) (h : P.Safe t p L Q) :
    P.Safe t p (fun s => L s ∧ F s) fun a s => Q a s ∧ F s := by
  have hboth : ∀ {L' : σ → Prop}, P.Stable t L' → P.Stable t fun s => L' s ∧ F s :=
    fun hst s s' hi hi' hr hl => ⟨hst s s' hi hi' hr hl.1, hF s s' hi hi' hr hl.2⟩
  induction p generalizing L with
  | done => exact fun s hi hl => ⟨h s hi hl.1, hl.2⟩
  | atomic f k ih =>
    intro s hi hl
    obtain ⟨hinv, hguar, L', hst, hl', hk⟩ := h s hi hl.1
    exact ⟨hinv, hguar, _, hboth hst, ⟨hl', hown s _ hi hinv hguar hl.2⟩, ih s hk⟩
  | await r k ih =>
    intro s a s' hi hl ha
    obtain ⟨hinv, hguar, L', hst, hl', hk⟩ := h s a s' hi hl.1 ha
    exact ⟨hinv, hguar, _, hboth hst, ⟨hl', hown s s' hi hinv hguar hl.2⟩, ih a hk⟩

/-- **One atomic operation.** -/
theorem Safe.run {f : σ → β × σ} {Q : β → σ → Prop} (hst : ∀ b, P.Stable t (Q b))
    (h : ∀ s, P.Inv s → L s → P.Inv (f s).2 ∧ P.Guar t s (f s).2 ∧ Q (f s).1 (f s).2) :
    P.Safe t (Prog.run f) L Q := by
  intro s hi hl
  obtain ⟨hinv, hguar, hq⟩ := h s hi hl
  exact ⟨hinv, hguar, Q (f s).1, hst _, hq, fun _ _ hq' => hq'⟩

/-- **One awaited request.** -/
theorem Safe.request {r : Req} {Q : Resp r → σ → Prop} (hst : ∀ a, P.Stable t (Q a))
    (h : ∀ s a s', P.Inv s → L s → W.answer s r a s' →
      P.Inv s' ∧ P.Guar t s s' ∧ Q a s') : P.Safe t (Prog.request r) L Q := by
  intro s a s' hi hl ha
  obtain ⟨hinv, hguar, hq⟩ := h s a s' hi hl ha
  exact ⟨hinv, hguar, Q a, hst a, hq, fun _ _ hq' => hq'⟩

theorem Stable.true : P.Stable t fun _ => True := fun _ _ _ _ _ _ => trivial

theorem Stable.and (h : P.Stable t L) (h' : P.Stable t L') : P.Stable t fun s => L s ∧ L' s :=
  fun s s' hi hi' hr hl => ⟨h s s' hi hi' hr hl.1, h' s s' hi hi' hr hl.2⟩

/-! ## §4. Soundness -/

/-- What has to be shown once about a world and its protocol. -/
structure Verified (P : Protocol W) : Prop where
  init : ∀ s, W.init s → P.Inv s ∧ ∀ t, P.Fresh t s
  env : ∀ s s', P.Inv s → W.env s s' → P.Inv s' ∧ ∀ t, P.Fresh t s → P.Fresh t s'
  crash : ∀ s s', P.Inv s → W.crash s s' → P.Inv s' ∧ ∀ t, P.Fresh t s → P.Fresh t s'
  fresh : ∀ t u s s', t ≠ u → P.Inv s → P.Guar u s s' → P.Fresh t s → P.Fresh t s'
  entry : ∀ t p, W.entry t p → P.Stable t (P.Fresh t) ∧ P.Safe t p (P.Fresh t) fun _ _ => True

/-- The configuration-level invariant: the store's, and a stable assertion for each thread. -/
structure Holds (P : Protocol W) (c : Config σ Req Resp) : Prop where
  inv : P.Inv c.store
  unused : ∀ t, c.next ≤ t → P.Fresh t c.store ∧ c.thread t = none
  threads : ∀ t p, c.thread t = some p →
    ∃ L, P.Stable t L ∧ L c.store ∧ P.Safe t p L fun _ _ => True

theorem Holds.advance (h : Holds P c) (hver : Verified P) {s : σ} {q : Prog σ Req Resp Unit}
    {p₀ : Prog σ Req Resp Unit} (ht : c.thread t = some p₀) (hinv : P.Inv s)
    (hguar : P.Guar t c.store s) (hst : P.Stable t L') (hl : L' s)
    (hsafe : P.Safe t q L' fun _ _ => True) : Holds P ⟨s, update c.thread t (some q), c.next⟩ where
  inv := hinv
  unused u hu := by
    obtain ⟨hfresh, hnone⟩ := h.unused u hu
    have hne : u ≠ t := by
      intro heq
      rw [heq, ht] at hnone
      cases hnone
    refine ⟨hver.fresh u t _ _ hne h.inv hguar hfresh, ?_⟩
    show update c.thread t (some q) u = none
    rw [update_of_ne hne]
    exact hnone
  threads u p hu := by
    change update c.thread t (some q) u = some p at hu
    by_cases hut : u = t
    · subst hut
      rw [update_self] at hu
      cases hu
      exact ⟨L', hst, hl, hsafe⟩
    · rw [update_of_ne hut] at hu
      obtain ⟨L, hL, hLs, hs⟩ := h.threads u p hu
      refine ⟨L, hL, ?_, hs⟩
      exact hL _ _ h.inv hinv (.inl ⟨t, fun heq => hut heq.symm, hguar⟩) hLs

theorem Holds.step {c c' : Config σ Req Resp} (h : Holds P c) (hver : Verified P)
    (hstep : W.Step c c') : Holds P c' := by
  cases hstep with
  | spawn p hp =>
    obtain ⟨hst, hsafe⟩ := hver.entry c.next p hp
    refine ⟨h.inv, fun u hu => ?_, fun u q hu => ?_⟩
    · have hle : c.next + 1 ≤ u := hu
      obtain ⟨hfresh, hnone⟩ := h.unused u (by omega)
      refine ⟨hfresh, ?_⟩
      show update c.thread c.next (some p) u = none
      rw [update_of_ne (by omega)]
      exact hnone
    · by_cases hun : u = c.next
      · subst hun
        simp only [update_self, Option.some.injEq] at hu
        subst hu
        exact ⟨_, hst, (h.unused _ (Nat.le_refl _)).1, hsafe⟩
      · simp only [update_of_ne hun] at hu
        exact h.threads u q hu
  | act t f k ht =>
    obtain ⟨L, -, hLs, hs⟩ := h.threads t _ ht
    obtain ⟨hinv, hguar, L', hst, hl', hk⟩ := hs c.store h.inv hLs
    exact h.advance hver ht hinv hguar hst hl' hk
  | answer t r k a s ht ha =>
    obtain ⟨L, -, hLs, hs⟩ := h.threads t _ ht
    obtain ⟨hinv, hguar, L', hst, hl', hk⟩ := hs c.store a s h.inv hLs ha
    exact h.advance hver ht hinv hguar hst hl' hk
  | env s he =>
    obtain ⟨hinv, hfresh⟩ := hver.env _ _ h.inv he
    refine ⟨hinv, fun u hu => ⟨hfresh u (h.unused u hu).1, (h.unused u hu).2⟩, fun u p hu => ?_⟩
    obtain ⟨L, hL, hLs, hs⟩ := h.threads u p hu
    exact ⟨L, hL, hL _ _ h.inv hinv (.inr he) hLs, hs⟩
  | crash s hc =>
    obtain ⟨hinv, hfresh⟩ := hver.crash _ _ h.inv hc
    refine ⟨hinv, fun u hu => ⟨hfresh u (h.unused u hu).1, rfl⟩, fun u p hu => ?_⟩
    cases hu

theorem Holds.of_reachable (hver : Verified P) (hreach : W.Reachable c) : Holds P c := by
  induction hreach with
  | init s hs =>
    obtain ⟨hinv, hfresh⟩ := hver.init s hs
    exact ⟨hinv, fun t _ => ⟨hfresh t, rfl⟩, nofun⟩
  | step _ hstep ih => exact ih.step hver hstep

/-- **Soundness**: the invariant holds in every reachable configuration. -/
theorem sound (hver : Verified P) (hreach : W.Reachable c) : P.Inv c.store :=
  (Holds.of_reachable hver hreach).inv

theorem Holds.moved (h : Holds P c) (hstep : W.Step c c') :
    c'.store = c.store ∨ (∃ t, P.Guar t c.store c'.store) ∨ W.env c.store c'.store ∨
      W.crash c.store c'.store := by
  cases hstep with
  | spawn => exact .inl rfl
  | act t f k ht =>
    obtain ⟨L, -, hLs, hs⟩ := h.threads t _ ht
    exact .inr (.inl ⟨t, (hs c.store h.inv hLs).2.1⟩)
  | answer t r k a s ht ha =>
    obtain ⟨L, -, hLs, hs⟩ := h.threads t _ ht
    exact .inr (.inl ⟨t, (hs c.store a s h.inv hLs ha).2.1⟩)
  | env s he => exact .inr (.inr (.inl he))
  | crash s hc => exact .inr (.inr (.inr hc))

/-- **What every step preserves, every later configuration has.**  `R` is a relation the
    guarantees, the environment and a crash all respect. -/
theorem sound_later (hver : Verified P) {R : σ → σ → Prop} (hrefl : ∀ s, R s s)
    (htrans : ∀ s₁ s₂ s₃, R s₁ s₂ → R s₂ s₃ → R s₁ s₃)
    (hguar : ∀ t s s', P.Inv s → P.Guar t s s' → R s s')
    (henv : ∀ s s', P.Inv s → W.env s s' → R s s')
    (hcrash : ∀ s s', P.Inv s → W.crash s s' → R s s') (hreach : W.Reachable c)
    (hlater : Relation.ReflTransGen W.Step c c') : R c.store c'.store := by
  have hboth : W.Reachable c' ∧ R c.store c'.store := by
    induction hlater with
    | refl => exact ⟨hreach, hrefl _⟩
    | tail _ hstep ih =>
      obtain ⟨hr, hR⟩ := ih
      have hholds := Holds.of_reachable hver hr
      refine ⟨hr.step hstep, htrans _ _ _ hR ?_⟩
      rcases hholds.moved hstep with heq | ⟨t, hg⟩ | he | hc
      · rw [heq]
        exact hrefl _
      · exact hguar t _ _ hholds.inv hg
      · exact henv _ _ hholds.inv he
      · exact hcrash _ _ hholds.inv hc
  exact hboth.2

theorem reachable_later {W : World σ Req Resp} (hreach : W.Reachable c)
    (hlater : Relation.ReflTransGen W.Step c c') : W.Reachable c' := by
  induction hlater with
  | refl => exact hreach
  | tail _ hstep ih => exact ih.step hstep

end Protocol

end

end Motebit.Lib
