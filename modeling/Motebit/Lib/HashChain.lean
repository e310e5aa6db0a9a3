/-
  Motebit.Lib.HashChain — A LIST WHOSE ENTRIES NAME THE HASH OF THE ONE BEFORE.

  Every entry carries a hash and the hash of its predecessor; the first names a fixed sentinel.
  The hash of an entry is a digest of its content, its link included.

  Main results: `chained_snoc`, `commits`.
-/

import Mathlib.Data.List.Forall2
import Mathlib.Data.List.Induction

namespace Motebit.Lib.HashChain

open List

variable {E H : Type} (prev hash digest : E → H)

def head (sentinel : H) (xs : List E) : H := (xs.getLast?.map hash).getD sentinel

/-- Every entry names the hash before it and carries its own digest. -/
def Chained (sentinel : H) : List E → Prop
  | [] => True
  | e :: rest => prev e = sentinel ∧ hash e = digest e ∧ Chained (hash e) rest

variable {prev hash digest}

theorem head_nil (sentinel : H) : head hash sentinel [] = sentinel := rfl

theorem head_snoc (sentinel : H) (xs : List E) (e : E) :
    head hash sentinel (xs ++ [e]) = hash e := by
  unfold head
  rw [getLast?_concat]
  rfl

theorem head_cons (sentinel : H) (e : E) (xs : List E) :
    head hash sentinel (e :: xs) = head hash (hash e) xs := by
  cases xs with
  | nil => rfl
  | cons x xs =>
    unfold head
    rw [getLast?_cons_cons]
    cases h : (x :: xs).getLast? with
    | none => simp at h
    | some => rfl

/-- **A chain grows at its end**: by an entry that names its head and carries its digest. -/
theorem chained_snoc (sentinel : H) (xs : List E) (e : E) :
    Chained prev hash digest sentinel (xs ++ [e]) ↔
      Chained prev hash digest sentinel xs ∧ prev e = head hash sentinel xs ∧
        hash e = digest e := by
  induction xs generalizing sentinel with
  | nil =>
    rw [nil_append, head_nil]
    simp [Chained]
  | cons x xs ih =>
    rw [cons_append, head_cons]
    unfold Chained
    rw [ih (hash x)]
    simp only [and_assoc]

/-- **The head commits to the chain.**  Where equal digests mean related entries with one link,
    and no digest is the sentinel, two chains with one head are related entry by entry. -/
theorem commits {Same : E → E → Prop} {sentinel : H} {xs ys : List E}
    (hxs : Chained prev hash digest sentinel xs) (hys : Chained prev hash digest sentinel ys)
    (hsentinel : ∀ e, digest e ≠ sentinel)
    (hsame : ∀ x ∈ xs, ∀ y ∈ ys, digest x = digest y → hash x = digest x → hash y = digest y →
      prev x = prev y ∧ Same x y)
    (hhead : head hash sentinel xs = head hash sentinel ys) : List.Forall₂ Same xs ys := by
  induction xs using List.reverseRecOn generalizing ys with
  | nil =>
    cases ys using List.reverseRecOn with
    | nil => exact List.Forall₂.nil
    | append_singleton ys y =>
      rw [head_nil, head_snoc, ((chained_snoc sentinel ys y).mp hys).2.2] at hhead
      exact absurd hhead.symm (hsentinel y)
  | append_singleton xs x ih =>
    obtain ⟨hxs, hlink, hdigest⟩ := (chained_snoc sentinel xs x).mp hxs
    cases ys using List.reverseRecOn with
    | nil =>
      rw [head_nil, head_snoc, hdigest] at hhead
      exact absurd hhead (hsentinel x)
    | append_singleton ys y =>
      obtain ⟨hys, hlink', hdigest'⟩ := (chained_snoc sentinel ys y).mp hys
      rw [head_snoc, head_snoc, hdigest, hdigest'] at hhead
      obtain ⟨hprev, hxy⟩ := hsame x (by simp) y (by simp) hhead hdigest hdigest'
      -- the links agree, so the shorter chains have one head too
      rw [hlink, hlink'] at hprev
      have hrest := ih hxs hys
        (fun a ha b hb => hsame a (mem_append_left _ ha) b (mem_append_left _ hb)) hprev
      exact rel_append hrest (List.Forall₂.cons hxy List.Forall₂.nil)

end Motebit.Lib.HashChain
