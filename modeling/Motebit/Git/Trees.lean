/-
  Motebit.Git.Trees — TREE OBJECTS READ BYTE BY BYTE.

  Translated from `packages/verify/src/git/objects.ts`.  A mode is one of git's five, so the two
  spellings of a directory's mode are one value; an object id is its bytes.

  Main results: `parseTree_iff`.
-/

import Mathlib.Data.List.Lex

namespace Motebit.Git

open List

abbrev Bytes := List UInt8

scoped instance lawful_bytes : LawfulBEq Bytes := inferInstance

/-! ## §1. The parser -/

def SPACE : UInt8 := 0x20

def NUL : UInt8 := 0x00

def SLASH : UInt8 := 0x2f

def ascii (s : String) : Bytes := s.toList.map fun c => UInt8.ofNat c.toNat

/-- The modes a tree object may hold. -/
inductive TreeMode
  | regular
  | executable
  | symlink
  | gitlink
  | tree
  deriving DecidableEq

inductive ObjectType
  | blob
  | commit
  | tree
  deriving DecidableEq

def TreeMode.stored : TreeMode → Bytes
  | .regular => ascii "100644"
  | .executable => ascii "100755"
  | .symlink => ascii "120000"
  | .gitlink => ascii "160000"
  | .tree => ascii "40000"

def TreeMode.type : TreeMode → ObjectType
  | .regular => .blob
  | .executable => .blob
  | .symlink => .blob
  | .gitlink => .commit
  | .tree => .tree

def TREE_MODES : List TreeMode := [.regular, .executable, .symlink, .gitlink, .tree]

structure RawTreeEntry where
  mode : TreeMode
  name : Bytes
  oid : Bytes
  deriving DecidableEq

inductive ObjectStoreError
  | noMode
  | notCanonical (mode : Bytes)
  | notTerminated
  | malformed (name : Bytes)
  | cutShort
  | twice (name : Bytes)
  | order
  | notHeld (oid : Bytes)
  | unfinished
  deriving DecidableEq

/-- Negative, zero or positive, as one stands before the other in `memcmp`'s order. -/
def compareBytes : Bytes → Bytes → Int
  | a :: as, b :: bs => if a ≠ b then (a.toNat : Int) - b.toNat else compareBytes as bs
  | as, bs => (as.length : Int) - bs.length

def sortKey (e : RawTreeEntry) : Bytes := if e.mode ≠ .tree then e.name else e.name ++ [SLASH]

/-- What stands before the first `sep` (`indexOf`), and behind it. -/
def cutAt (sep : UInt8) : Bytes → Option (Bytes × Bytes)
  | [] => none
  | b :: rest => if b = sep then some ([], rest) else (cutAt sep rest).map (Prod.map (b :: ·) id)

/-- One entry in front of the rest. -/
def readEntry (hashLength : Nat) (content : Bytes) :
    Except ObjectStoreError (RawTreeEntry × Bytes) :=
  match cutAt SPACE content with
  | none => .error .noMode
  | some (stored, behind) =>
    match TREE_MODES.find? fun m => m.stored == stored with
    | none => .error (.notCanonical stored)
    | some mode =>
      match cutAt NUL behind with
      | none => .error .notTerminated
      | some (name, raw) =>
        if name = [] ∨ SLASH ∈ name ∨ name = ascii "." ∨ name = ascii ".." then
          .error (.malformed name)
        else if raw.length < hashLength then .error .cutShort
        else .ok (⟨mode, name, raw.take hashLength⟩, raw.drop hashLength)

def encodeEntry (e : RawTreeEntry) : Bytes := e.mode.stored ++ SPACE :: (e.name ++ NUL :: e.oid)

/-- A name a tree may hold. -/
structure ValidName (name : Bytes) : Prop where
  ne_nil : name ≠ []
  terminated : NUL ∉ name
  segment : SLASH ∉ name
  not_self : name ≠ ascii "."
  not_parent : name ≠ ascii ".."

theorem cutAt_eq_some {sep : UInt8} {l a r : Bytes} :
    cutAt sep l = some (a, r) ↔ sep ∉ a ∧ l = a ++ sep :: r := by
  induction l generalizing a with
  | nil => simp [cutAt]
  | cons b l ih =>
    unfold cutAt
    split
    · next hb =>
      subst hb
      constructor
      · rintro h
        cases h
        simp
      · rintro ⟨hnot, h⟩
        cases a with
        | nil =>
          cases h
          rfl
        | cons =>
          cases h
          exact absurd mem_cons_self hnot
    · next hb =>
      constructor
      · intro h
        obtain ⟨⟨a', r'⟩, hcut, heq⟩ := Option.map_eq_some_iff.mp h
        cases heq
        obtain ⟨hnot, rfl⟩ := ih.mp hcut
        exact ⟨by simp [hnot, Ne.symm hb], rfl⟩
      · rintro ⟨hnot, h⟩
        cases a with
        | nil =>
          cases h
          exact absurd rfl hb
        | cons =>
          cases h
          rw [ih.mpr ⟨fun hmem => hnot (mem_cons_of_mem _ hmem), rfl⟩]
          rfl

theorem stored_no_space (m : TreeMode) : SPACE ∉ m.stored := by
  cases m <;> decide

theorem find_stored {m : TreeMode} {stored : Bytes} :
    (TREE_MODES.find? fun m => m.stored == stored) = some m ↔ m.stored = stored := by
  constructor
  · intro h
    have hfound := find?_some h
    exact eq_of_beq hfound
  · rintro rfl
    cases m <;> decide

/-- **An entry is read off exactly its own bytes.** -/
theorem readEntry_iff {hashLength : Nat} {content rest : Bytes} {e : RawTreeEntry} :
    readEntry hashLength content = .ok (e, rest) ↔
      ValidName e.name ∧ e.oid.length = hashLength ∧ content = encodeEntry e ++ rest := by
  unfold readEntry
  constructor
  · intro h
    split at h
    · cases h
    next stored behind hspace =>
    split at h
    · cases h
    next mode hmode =>
    split at h
    · cases h
    next name raw hnul =>
    split at h
    · cases h
    next hname =>
    split at h
    · cases h
    next hlength =>
    cases h
    obtain ⟨-, rfl⟩ := cutAt_eq_some.mp hspace
    obtain ⟨hterminated, rfl⟩ := cutAt_eq_some.mp hnul
    obtain rfl := find_stored.mp hmode
    simp only [not_or] at hname
    refine ⟨⟨hname.1, hterminated, hname.2.1, hname.2.2.1, hname.2.2.2⟩, ?_, ?_⟩
    · rw [length_take]
      omega
    · unfold encodeEntry
      simp
  · rintro ⟨hname, hlength, rfl⟩
    have hspace : cutAt SPACE (encodeEntry e ++ rest) =
        some (e.mode.stored, e.name ++ NUL :: (e.oid ++ rest)) :=
      cutAt_eq_some.mpr ⟨stored_no_space _, by simp [encodeEntry]⟩
    have hnul : cutAt NUL (e.name ++ NUL :: (e.oid ++ rest)) = some (e.name, e.oid ++ rest) :=
      cutAt_eq_some.mpr ⟨hname.terminated, rfl⟩
    have hvalid : ¬ (e.name = [] ∨ SLASH ∈ e.name ∨ e.name = ascii "." ∨ e.name = ascii "..") := by
      simp [hname.ne_nil, hname.segment, hname.not_self, hname.not_parent]
    have hfits : ¬ (e.oid ++ rest).length < hashLength := by
      rw [length_append]
      omega
    rw [hspace]
    dsimp only
    rw [find_stored.mpr rfl]
    rw [hnul]
    dsimp only
    rw [if_neg hvalid, if_neg hfits, ← hlength, take_left, drop_left]

variable {hashLength : Nat} {e : RawTreeEntry}

theorem readEntry_length {content rest : Bytes}
    (h : readEntry hashLength content = .ok (e, rest)) : rest.length < content.length := by
  obtain ⟨-, -, rfl⟩ := readEntry_iff.mp h
  simp [encodeEntry]
  omega

def parseFrom (hashLength : Nat) (out : List RawTreeEntry) (content : Bytes) :
    Except ObjectStoreError (List RawTreeEntry) :=
  if content = [] then .ok out
  else match _hread : readEntry hashLength content with
  | .error fault => .error fault
  | .ok (e, rest) =>
    if e.name ∈ out.map RawTreeEntry.name then .error (.twice e.name)
    else if ∃ prev ∈ out.getLast?, 0 ≤ compareBytes (sortKey prev) (sortKey e) then .error .order
    else parseFrom hashLength (out ++ [e]) rest
termination_by content.length
decreasing_by exact readEntry_length _hread

def parseTree (hashLength : Nat) (content : Bytes) :
    Except ObjectStoreError (List RawTreeEntry) := parseFrom hashLength [] content

/-! ## §2. What it accepts -/

/-- A tree in git's form. -/
structure Canonical (hashLength : Nat) (entries : List RawTreeEntry) : Prop where
  valid : ∀ e ∈ entries, ValidName e.name
  oids : ∀ e ∈ entries, e.oid.length = hashLength
  distinct : (entries.map RawTreeEntry.name).Nodup
  sorted : entries.Pairwise fun a b => sortKey a < sortKey b

theorem compareBytes_neg {a b : Bytes} : compareBytes a b < 0 ↔ a < b := by
  induction a generalizing b with
  | nil =>
    cases b with
    | nil => simp [compareBytes]
    | cons y b =>
      have hlt : ([] : Bytes) < y :: b := List.Lex.nil
      simp only [compareBytes, hlt, iff_true, length_nil, length_cons]
      omega
  | cons x a ih =>
    cases b with
    | nil => simp [compareBytes]; omega
    | cons y =>
      unfold compareBytes
      rw [cons_lt_cons_iff]
      by_cases heq : x = y
      · subst heq
        simp [ih]
      · have hne : x.toNat ≠ y.toNat := fun h => heq (UInt8.toNat_inj.mp h)
        rw [if_pos heq, UInt8.lt_iff_toNat_lt]
        simp only [heq, false_and, or_false]
        omega

theorem sorted_snoc {out : List RawTreeEntry} (h : out.Pairwise fun a b => sortKey a < sortKey b) :
    (out ++ [e]).Pairwise (fun a b => sortKey a < sortKey b) ↔
      ¬ ∃ prev ∈ out.getLast?, 0 ≤ compareBytes (sortKey prev) (sortKey e) := by
  rw [pairwise_append]
  constructor
  · rintro ⟨-, -, hlast⟩ ⟨prev, hprev, hle⟩
    have hlt := hlast prev (mem_of_getLast? hprev) e (by simp)
    rw [← compareBytes_neg] at hlt
    omega
  · intro hlast
    refine ⟨h, pairwise_singleton _ _, ?_⟩
    intro a ha b hb
    rw [mem_singleton.mp hb]
    rcases eq_nil_or_concat out with rfl | ⟨front, prev, rfl⟩
    · cases ha
    · have hprev : sortKey prev < sortKey e := by
        rw [← compareBytes_neg]
        by_contra hle
        exact hlast ⟨prev, by simp, by omega⟩
      rw [concat_eq_append] at h ha
      rcases mem_append.mp ha with hfront | hlast'
      · exact List.lt_trans ((pairwise_append.mp h).2.2 a hfront prev (by simp)) hprev
      · rw [mem_singleton.mp hlast']
        exact hprev

variable {content : Bytes}

theorem parseFrom_iff {out entries : List RawTreeEntry}
    (hout : Canonical hashLength out) : parseFrom hashLength out content = .ok entries ↔
      ∃ more, entries = out ++ more ∧ Canonical hashLength entries ∧
        content = more.flatMap encodeEntry := by
  induction hn : content.length using Nat.strongRecOn generalizing out content with
  | ind n ih =>
    subst hn
    rw [parseFrom]
    split
    · next hnil =>
      subst hnil
      constructor
      · intro h
        cases h
        exact ⟨[], by simp, hout, rfl⟩
      · rintro ⟨more, rfl, -, hmore⟩
        cases more with
        | nil => simp
        | cons => simp [encodeEntry] at hmore
    next hne =>
    split
    · next fault hread =>
      constructor
      · nofun
      · rintro ⟨more, rfl, hcanonical, rfl⟩
        cases more with
        | nil => exact absurd rfl hne
        | cons e more =>
          have hok := (@readEntry_iff hashLength _ (more.flatMap encodeEntry) e).mpr
            ⟨hcanonical.valid e (by simp), hcanonical.oids e (by simp), rfl⟩
          rw [flatMap_cons, hok] at hread
          cases hread
    · next e rest hread =>
      obtain ⟨hname, hoid, hcontent⟩ := readEntry_iff.mp hread
      -- any reading goes on with this entry
      have hfirst : ∀ more, content = more.flatMap encodeEntry → Canonical hashLength (out ++ more) →
          ∃ more', more = e :: more' ∧ rest = more'.flatMap encodeEntry := by
        intro more hmore hcanonical
        cases more with
        | nil => exact absurd hmore hne
        | cons e' more =>
          have hok := (@readEntry_iff hashLength _ (more.flatMap encodeEntry) e').mpr
            ⟨hcanonical.valid e' (by simp), hcanonical.oids e' (by simp), rfl⟩
          rw [hmore, flatMap_cons, hok] at hread
          cases hread
          exact ⟨more, rfl, rfl⟩
      split
      · next htwice =>
        constructor
        · nofun
        · rintro ⟨more, rfl, hcanonical, hmore⟩
          obtain ⟨more, rfl, -⟩ := hfirst more hmore hcanonical
          have hdistinct := hcanonical.distinct
          rw [map_append, nodup_append] at hdistinct
          exact absurd rfl (hdistinct.2.2 _ htwice e.name (by simp))
      next htwice =>
      split
      · next horder =>
        constructor
        · nofun
        · rintro ⟨more, rfl, hcanonical, hmore⟩
          obtain ⟨more, rfl, -⟩ := hfirst more hmore hcanonical
          have hsorted := hcanonical.sorted
          rw [append_cons] at hsorted
          exact absurd horder ((sorted_snoc hout.sorted).mp (pairwise_append.mp hsorted).1)
      next horder =>
      have hnext : Canonical hashLength (out ++ [e]) := by
        refine ⟨?_, ?_, ?_, (sorted_snoc hout.sorted).mpr horder⟩
        · exact forall_mem_append.mpr ⟨hout.valid, forall_mem_singleton.mpr hname⟩
        · exact forall_mem_append.mpr ⟨hout.oids, forall_mem_singleton.mpr hoid⟩
        · rw [map_append, nodup_append]
          refine ⟨hout.distinct, by simp, ?_⟩
          intro a ha b hb heq
          rw [heq, mem_singleton.mp hb] at ha
          exact htwice ha
      rw [ih rest.length (readEntry_length hread) hnext rfl]
      constructor
      · rintro ⟨more, rfl, hcanonical, rfl⟩
        exact ⟨e :: more, by simp, hcanonical, hcontent⟩
      · rintro ⟨more, rfl, hcanonical, hmore⟩
        obtain ⟨more, rfl, hrest⟩ := hfirst more hmore hcanonical
        exact ⟨more, by simp, hcanonical, hrest⟩

/-- **The parser accepts the encodings of canonical trees, and nothing else.** -/
theorem parseTree_iff {entries : List RawTreeEntry} :
    parseTree hashLength content = .ok entries ↔
      Canonical hashLength entries ∧ content = entries.flatMap encodeEntry := by
  have hnil : Canonical hashLength [] := ⟨by simp, by simp, by simp, by simp⟩
  unfold parseTree
  rw [parseFrom_iff hnil]
  simp

end Motebit.Git
