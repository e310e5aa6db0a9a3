/-
  Motebit.Lib.Glob — PATTERNS WITH A STAR, matched by a loop that remembers only the last one.

  Main results: `loop_iff`, `matchLoop_iff`.
-/

import Mathlib.Tactic.Common

namespace Motebit.Lib.Glob

open List

variable {α : Type} [DecidableEq α] {star : α}

/-! ## §1. The reading -/

/-- A star stands for any run; everything else for itself. -/
inductive Matches (star : α) : List α → List α → Prop
  | nil : Matches star [] []
  | char {c : α} {g s : List α} : c ≠ star → Matches star g s → Matches star (c :: g) (c :: s)
  | run {g s : List α} (run : List α) : Matches star g s → Matches star (star :: g) (run ++ s)

variable {g s : List α}

theorem matches_nil_right : Matches star g [] ↔ ∀ c ∈ g, c = star := by
  constructor
  · intro h
    generalize hs : ([] : List α) = s at h
    induction h with
    | nil => simp
    | char => cases hs
    | run run _ ih =>
      obtain ⟨-, rfl⟩ := append_eq_nil_iff.mp hs.symm
      simpa using ih rfl
  · intro h
    induction g with
    | nil => exact .nil
    | cons c g ih =>
      obtain rfl := h c mem_cons_self
      exact .run [] (ih fun d hd => h d (mem_cons_of_mem _ hd))

theorem matches_star : Matches star (star :: g) s ↔ ∃ k, Matches star g (s.drop k) := by
  constructor
  · intro h
    cases h with
    | char hne => exact absurd rfl hne
    | run run => exact ⟨run.length, by rwa [drop_left]⟩
  · rintro ⟨k, h⟩
    rw [← take_append_drop k s]
    exact .run _ h

theorem matches_chars {chars g s : List α} (hchars : star ∉ chars) :
    Matches star (chars ++ g) s ↔ ∃ t, s = chars ++ t ∧ Matches star g t := by
  induction chars generalizing s with
  | nil => simp
  | cons c chars ih =>
    obtain ⟨hc, hchars⟩ := not_or.mp (fun h => hchars (mem_cons.mpr h))
    constructor
    · intro h
      cases h with
      | char _ h =>
        obtain ⟨t, rfl, ht⟩ := (ih hchars).mp h
        exact ⟨t, rfl, ht⟩
      | run => exact absurd rfl hc
    · rintro ⟨t, rfl, ht⟩
      exact .char (Ne.symm hc) ((ih hchars).mpr ⟨t, rfl, ht⟩)

theorem Matches.map {f : α → α} (hstar : ∀ c, f c = star ↔ c = star) (h : Matches star g s) :
    Matches star (g.map f) (s.map f) := by
  induction h with
  | nil => exact .nil
  | @char c _ _ hne _ ih => exact .char (fun heq => hne ((hstar c).mp heq)) ih
  | run run _ ih =>
    rw [map_cons, (hstar star).mpr rfl, map_append]
    exact .run _ ih

/-! ## §2. The loop -/

/-- Since the mark, pattern and text have gone over the same characters. -/
def Since (star : α) (mark : Option (List α × List α)) (g s : List α) : Prop :=
  ∀ p ∈ mark, ∃ chars, star ∉ chars ∧ p.1 = chars ++ g ∧ p.2 = chars ++ s

theorem since_self (g s : List α) : Since star (some (g, s)) g s := by
  rintro p ⟨⟩
  exact ⟨[], by simp⟩

variable {mark : Option (List α × List α)}

theorem Since.char {c d : α} {g s : List α}
    (h : Since star mark (d :: g) (c :: s)) (hd : d ≠ star ∧ d = c) : Since star mark g s := by
  intro p hp
  obtain ⟨chars, hchars, hg, hs⟩ := h p hp
  refine ⟨chars ++ [d], ?_, by rw [hg]; simp, by rw [hs, hd.2]; simp⟩
  simpa [hchars] using Ne.symm hd.1

theorem Since.length_tail {gs ms : List α} {c : α} (h : Since star (some (gs, ms)) g (c :: s)) :
    ms.tail.length < ms.length := by
  obtain ⟨chars, -, -, hs⟩ := h _ rfl
  have hs' : ms = chars ++ c :: s := hs
  rw [hs', List.length_tail, length_append, length_cons]
  omega

/-- What is left of the pattern behind the mark. -/
def weight (mark : Option (List α × List α)) (g : List α) : Nat :=
  match mark with
  | none => g.length + 1
  | some p => p.1.length

/-- The matcher: the pattern and the text that are left, and behind the last star the pattern and
the text its run went up to. -/
def loop (star : α) (g s : List α) (mark : Option (List α × List α)) (h : Since star mark g s) :
    Bool :=
  match s, g, mark, h with
  | [], g, _, _ => g.all (· == star)
  | _ :: _, [], none, _ => false
  | _ :: _, [], some (gs, ms), _ => loop star gs ms.tail (some (gs, ms.tail)) (since_self _ _)
  | c :: s, d :: g, mark, h =>
    if hd : d ≠ star ∧ d = c then loop star g s mark (h.char hd)
    else if d = star then loop star g (c :: s) (some (g, c :: s)) (since_self _ _)
    else
      match mark, h with
      | none, _ => false
      | some (gs, ms), _ => loop star gs ms.tail (some (gs, ms.tail)) (since_self _ _)
termination_by (weight mark g, mark.elim 0 (·.2.length), s.length)
decreasing_by
  · next h => exact Prod.Lex.right _ (Prod.Lex.left _ _ h.length_tail)
  · cases mark with
    | none => exact Prod.Lex.left _ _ (by simp [weight])
    | some => exact Prod.Lex.right _ (Prod.Lex.right _ (by simp))
  · next h _ hstar =>
    apply Prod.Lex.left
    cases mark with
    | none =>
      simp only [weight, length_cons]
      omega
    | some p =>
      obtain ⟨chars, -, hg, -⟩ := h p rfl
      simp only [weight, hg, length_append, length_cons]
      omega
  · next h => exact Prod.Lex.right _ (Prod.Lex.left _ _ h.length_tail)

/-! ## §3. What the loop decides -/

/-- The mark's pattern matches the text from a later place on. -/
def Later (star : α) (mark : Option (List α × List α)) : Prop :=
  ∃ p ∈ mark, ∃ k, Matches star p.1 (p.2.drop (k + 1))

theorem not_matches_cons {c d : α} (hd : ¬ (d ≠ star ∧ d = c)) (hstar : d ≠ star) :
    ¬ Matches star (d :: g) (c :: s) := by
  intro h
  generalize ht : c :: s = t at h
  cases h with
  | char hne =>
    injection ht with hc
    exact hd ⟨hne, hc.symm⟩
  | run => exact hstar rfl

theorem later_iff {gs ms : List α} : Later star (some (gs, ms)) ↔
    Matches star gs ms.tail ∨ Later star (some (gs, ms.tail)) := by
  have htail : ∀ k, ms.drop (k + 1) = ms.tail.drop k := fun k => by rw [drop_tail]
  constructor
  · rintro ⟨p, ⟨⟩, k, hk⟩
    rw [htail] at hk
    cases k with
    | zero => exact .inl hk
    | succ k => exact .inr ⟨_, rfl, k, hk⟩
  · rintro (h | ⟨p, ⟨⟩, k, hk⟩)
    · exact ⟨_, rfl, 0, by rwa [htail]⟩
    · exact ⟨_, rfl, k + 1, by rwa [htail]⟩

/-- At a star what an older mark matches, the new one matches: a run takes in the difference. -/
theorem matches_of_later (hsince : Since star mark (star :: g) s)
    (h : Later star mark) : ∃ k, Matches star g (s.drop k) := by
  obtain ⟨p, hp, k, hk⟩ := h
  obtain ⟨chars, hchars, hg, hs⟩ := hsince p hp
  rw [hg, matches_chars hchars] at hk
  obtain ⟨t, ht, hmatch⟩ := hk
  obtain ⟨j, hj⟩ := matches_star.mp hmatch
  have hsuffix : t = s.drop (k + 1) := by
    have hcut := congrArg (List.drop chars.length) ht
    rw [drop_left, drop_drop, hs, Nat.add_comm, ← drop_drop, drop_left] at hcut
    exact hcut.symm
  exact ⟨k + 1 + j, by rw [← drop_drop, ← hsuffix]; exact hj⟩

theorem matches_nil_of_later (hsince : Since star mark g [])
    (h : Later star mark) : Matches star g [] := by
  obtain ⟨p, hp, k, hk⟩ := h
  obtain ⟨chars, hchars, hg, hs⟩ := hsince p hp
  rw [hg, matches_chars hchars, hs, append_nil] at hk
  obtain ⟨t, ht, hmatch⟩ := hk
  have hlength := congrArg List.length ht
  rw [length_drop, length_append] at hlength
  have hnil : t = [] := length_eq_zero_iff.mp (by omega)
  rwa [hnil] at hmatch

/-- **From any mark: the rest matches, or a later place does.** -/
theorem loop_iff (h : Since star mark g s) :
    loop star g s mark h = true ↔ Matches star g s ∨ Later star mark := by
  induction g, s, mark, h using loop.induct star with
  | case1 mark g h =>
    have hall : loop star g [] mark h = true ↔ Matches star g [] := by
      rw [loop, all_eq_true, matches_nil_right]
      simp
    rw [hall]
    exact ⟨.inl, fun hor => hor.elim id (matches_nil_of_later h)⟩
  | case2 =>
    rw [loop]
    constructor
    · nofun
    · rintro (hmatch | ⟨_, ⟨⟩, _⟩)
      cases hmatch
  | case3 c s gs ms h _ ih =>
    rw [loop, ih, ← later_iff]
    constructor
    · exact .inr
    · rintro (hmatch | hlater)
      · cases hmatch
      · exact hlater
  | case4 c s d g mark h hd _ ih =>
    rw [loop.eq_def]
    dsimp only
    rw [dif_pos hd, ih]
    obtain ⟨hne, rfl⟩ := hd
    have hchar := @matches_chars _ _ star [d] g (d :: s) (by simpa using Ne.symm hne)
    rw [singleton_append] at hchar
    rw [hchar]
    simp
  | case5 c s g mark h hd _ ih =>
    rw [loop.eq_def]
    dsimp only
    rw [dif_neg hd, if_pos rfl, ih, matches_star]
    constructor
    · rintro (hmatch | ⟨p, ⟨⟩, k, hk⟩)
      · exact .inl ⟨0, hmatch⟩
      · exact .inl ⟨k + 1, hk⟩
    · intro hor
      have hsome : ∃ k, Matches star g ((c :: s).drop k) := hor.elim id (matches_of_later h)
      obtain ⟨k, hk⟩ := hsome
      cases k with
      | zero => exact .inl hk
      | succ k => exact .inr ⟨_, rfl, k, hk⟩
  | case6 c s d g hd hstar =>
    rw [loop.eq_def]
    dsimp only
    rw [dif_neg hd, if_neg hstar]
    constructor
    · nofun
    · rintro (hmatch | ⟨_, ⟨⟩, _⟩)
      exact absurd hmatch (not_matches_cons hd hstar)
  | case7 c s d g hd hstar gs ms h _ ih =>
    rw [loop.eq_def]
    dsimp only
    rw [dif_neg hd, if_neg hstar, ih, ← later_iff]
    exact ⟨.inr, fun hor => hor.resolve_left (not_matches_cons hd hstar)⟩

theorem since_none (g s : List α) : Since star none g s := by
  rintro p ⟨⟩

/-- **The loop decides the reading.** -/
theorem matchLoop_iff : loop star g s none (since_none g s) = true ↔ Matches star g s := by
  rw [loop_iff]
  constructor
  · rintro (h | ⟨_, ⟨⟩, _⟩)
    exact h
  · exact .inl

end Motebit.Lib.Glob
