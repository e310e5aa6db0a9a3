/-
  Motebit.Git.Readers — WHAT TREES HOLD: the listing, the look-up, and the difference of two.

  Translated from `packages/verify/src/git/objects.ts` and `repo-change.ts`.  A listing is given
  fuel; over trees that are all there, canonical and acyclic some amount is enough.

  Main results: `Grounded.listTree`, `Grounded.lookupFrom`, `applied_computeEntries`,
  `trees_agree`.
-/

import Motebit.Git.Trees
import Motebit.Lib.JsMap
import Motebit.Lib.Throws
import Motebit.Lib.Utf8

namespace Motebit.Git

open Motebit.Lib List

/-! ## §1. The readers -/

structure TreeEntry where
  mode : TreeMode
  type : ObjectType
  oid : Bytes
  path : Bytes
  deriving DecidableEq

/-- `RawObjects`: the re-hashed bytes of the trees it holds. -/
structure RawObjects where
  hashLength : Nat
  content : Bytes → Option Bytes

def RawObjects.tree (raw : RawObjects) (oid : Bytes) :
    Except ObjectStoreError (List RawTreeEntry) :=
  match raw.content oid with
  | none => .error (.notHeld oid)
  | some bytes => parseTree raw.hashLength bytes

def RawTreeEntry.listed (e : RawTreeEntry) (path : Bytes) : TreeEntry :=
  ⟨e.mode, e.mode.type, e.oid, path⟩

/-- The walk of `listTree`, under a directory. -/
def RawObjects.walk (raw : RawObjects) : Nat → Bytes → Bytes →
    Except ObjectStoreError (List TreeEntry)
  | 0, _, _ => .error .unfinished
  | fuel + 1, oid, dir =>
    (raw.tree oid).bind fun entries =>
      (entries.mapM fun e =>
        if e.mode.type = .tree then raw.walk fuel e.oid (dir ++ e.name ++ [SLASH])
        else .ok [e.listed (dir ++ e.name)]).map List.flatten

def RawObjects.listTree (raw : RawObjects) (fuel : Nat) (treeOid : Bytes) :
    Except ObjectStoreError (List TreeEntry) := raw.walk fuel treeOid []

def RawObjects.lookupFrom (raw : RawObjects) (cur : Bytes) :
    List Text → Except ObjectStoreError (Option RawTreeEntry)
  | [] => .ok none
  | segment :: rest =>
    (raw.tree cur).bind fun entries =>
      match entries.find? fun e => e.name == Utf8.encodeText segment with
      | none => .ok none
      | some e =>
        if rest = [] then .ok (some e)
        else if e.mode ≠ .tree then .ok none
        else raw.lookupFrom e.oid rest

/-- `"/"`. -/
def slash : Utf8.Cut := ⟨47, SLASH, '/', by decide, by decide, by decide⟩

def RawObjects.lookup (raw : RawObjects) (treeOid : Bytes) (path : Text) :
    Except ObjectStoreError (Option RawTreeEntry) :=
  raw.lookupFrom treeOid (path.splitOn slash.unit)

/-! ## §2. What is held at a path -/

variable {raw : RawObjects}

/-- Every tree under an id is there and canonical, and none is under itself. -/
inductive Grounded (raw : RawObjects) : Bytes → Prop
  | mk {oid : Bytes} {entries : List RawTreeEntry} : raw.tree oid = .ok entries →
      (∀ e ∈ entries, e.mode = .tree → Grounded raw e.oid) → Grounded raw oid

inductive Holds (raw : RawObjects) : Bytes → List Bytes → RawTreeEntry → Prop
  | entry {oid : Bytes} {entries : List RawTreeEntry} {e : RawTreeEntry} :
      raw.tree oid = .ok entries → e ∈ entries → Holds raw oid [e.name] e
  | under {oid : Bytes} {entries : List RawTreeEntry} {e f : RawTreeEntry} {names : List Bytes} :
      raw.tree oid = .ok entries → e ∈ entries → e.mode = .tree → Holds raw e.oid names f →
      Holds raw oid (e.name :: names) f

/-- The entry that names lead to, the first of them an entry's. -/
def Below (raw : RawObjects) (e : RawTreeEntry) (names : List Bytes) (f : RawTreeEntry) : Prop :=
  (names = [e.name] ∧ f = e) ∨
    ∃ rest, names = e.name :: rest ∧ e.mode = .tree ∧ Holds raw e.oid rest f

variable {oid : Bytes} {entries : List RawTreeEntry} {f : RawTreeEntry}

theorem canonical_tree (h : raw.tree oid = .ok entries) : Canonical raw.hashLength entries := by
  unfold RawObjects.tree at h
  split at h
  · cases h
  · exact (parseTree_iff.mp h).1

theorem holds_iff (h : raw.tree oid = .ok entries) {names : List Bytes} :
    Holds raw oid names f ↔ ∃ e ∈ entries, Below raw e names f := by
  constructor
  · intro hholds
    cases hholds with
    | entry h' he =>
      cases h.symm.trans h'
      exact ⟨f, he, .inl ⟨rfl, rfl⟩⟩
    | @under _ _ e _ rest h' he hmode hrest =>
      cases h.symm.trans h'
      exact ⟨e, he, .inr ⟨rest, rfl, hmode, hrest⟩⟩
  · rintro ⟨e, he, ⟨rfl, rfl⟩ | ⟨rest, rfl, hmode, hrest⟩⟩
    · exact .entry h he
    · exact .under h he hmode hrest

theorem eq_of_name {n : Nat} (h : Canonical n entries) {a b : RawTreeEntry} (ha : a ∈ entries)
    (hb : b ∈ entries) (hname : a.name = b.name) :
    a = b := inj_on_of_nodup_map h.distinct ha hb hname

theorem Below.head {e : RawTreeEntry} {names : List Bytes} (h : Below raw e names f) :
    ∃ rest, names = e.name :: rest := by
  rcases h with ⟨rfl, -⟩ | ⟨rest, rfl, -⟩
  · exact ⟨[], rfl⟩
  · exact ⟨rest, rfl⟩

theorem Holds.through {names more : List Bytes} {g : RawTreeEntry} (h : Holds raw oid names f)
    (hg : Holds raw oid (names ++ more) g) : if more = [] then f = g else f.mode = .tree := by
  induction h with
  | @entry oid entries e htree he =>
    obtain ⟨e', he', hbelow⟩ := (holds_iff htree).mp hg
    obtain ⟨rest, hrest⟩ := hbelow.head
    injection hrest with hname hmore
    obtain rfl := eq_of_name (canonical_tree htree) he he' hname
    rcases hbelow with ⟨hone, rfl⟩ | ⟨rest', hcons, hmode, hunder⟩
    · injection hone with _ hnil
      have hnil' : more = [] := hnil
      rw [if_pos hnil']
    · injection hcons with _ htail
      rw [if_neg, hmode]
      rintro rfl
      rw [← htail] at hunder
      cases hunder
  | @under oid entries e f names htree he hmode _ ih =>
    obtain ⟨e', he', hbelow⟩ := (holds_iff htree).mp hg
    obtain ⟨rest, hrest⟩ := hbelow.head
    injection hrest with hname hmore
    obtain rfl := eq_of_name (canonical_tree htree) he he' hname
    rcases hbelow with ⟨hone, rfl⟩ | ⟨rest', hcons, -, hunder⟩
    · next hholds =>
      injection hone with _ hnil
      obtain rfl := (append_eq_nil_iff.mp hnil).1
      cases hholds
    · injection hcons with _ htail
      rw [← htail] at hunder
      exact ih hunder

theorem not_holds_nil : ¬ Holds raw oid [] f := by
  nofun

/-! ## §3. The listing -/

theorem mapM_flatten {α β κ ε : Type} {f : α → Except ε (List β)} {key : β → κ}
    {Q : α → β → Prop} {l : List α}
    (h : ∀ a ∈ l, ∃ bs, f a = .ok bs ∧ (bs.map key).Nodup ∧ ∀ b, b ∈ bs ↔ Q a b)
    (hapart : l.Pairwise fun a a' => ∀ b b', Q a b → Q a' b' → key b ≠ key b') :
    ∃ bs, (l.mapM f).map List.flatten = .ok bs ∧ (bs.map key).Nodup ∧
      ∀ b, b ∈ bs ↔ ∃ a ∈ l, Q a b := by
  induction l with
  | nil => exact ⟨[], rfl, by simp, by simp⟩
  | cons a l ih =>
    obtain ⟨hhead, htail⟩ := pairwise_cons.mp hapart
    obtain ⟨first, hfirst, hnodup, hmem⟩ := h a mem_cons_self
    obtain ⟨rest, hrest, hnodup', hmem'⟩ := ih (fun x hx => h x (mem_cons_of_mem _ hx)) htail
    refine ⟨first ++ rest, ?_, ?_, ?_⟩
    · obtain ⟨parts, hparts, rfl⟩ := Throws.map_eq_ok.mp hrest
      rw [mapM_cons, hfirst, hparts]
      rfl
    · rw [map_append, nodup_append]
      refine ⟨hnodup, hnodup', ?_⟩
      intro x hx y hy
      obtain ⟨b, hb, rfl⟩ := mem_map.mp hx
      obtain ⟨b', hb', rfl⟩ := mem_map.mp hy
      obtain ⟨a', ha', hQ⟩ := (hmem' b').mp hb'
      exact hhead a' ha' b b' ((hmem b).mp hb) hQ
    · intro b
      rw [mem_append, hmem, hmem']
      simp

theorem exists_fuel {α : Type} {P : α → Nat → Prop} {l : List α}
    (h : ∀ a ∈ l, ∃ n, ∀ k, n ≤ k → P a k) : ∃ n, ∀ a ∈ l, ∀ k, n ≤ k → P a k := by
  induction l with
  | nil => exact ⟨0, by simp⟩
  | cons a l ih =>
    obtain ⟨n, hn⟩ := h a mem_cons_self
    obtain ⟨m, hm⟩ := ih fun x hx => h x (mem_cons_of_mem _ hx)
    refine ⟨max n m, ?_⟩
    intro x hx k hk
    rcases mem_cons.mp hx with rfl | hx
    · exact hn k (by omega)
    · exact hm x hx k (by omega)

def Listing (Q : List Bytes → RawTreeEntry → Prop) (dir : Bytes) (x : TreeEntry) : Prop :=
  ∃ path f, Q (path.splitOn SLASH) f ∧ f.mode ≠ .tree ∧ x = f.listed (dir ++ path)

theorem type_eq_tree {mode : TreeMode} : mode.type = .tree ↔ mode = .tree := by
  cases mode <;> decide

theorem Grounded.walk (h : Grounded raw oid) :
    ∃ n, ∀ fuel, n ≤ fuel → ∀ dir, ∃ list, raw.walk fuel oid dir = .ok list ∧
      (list.map TreeEntry.path).Nodup ∧ ∀ x, x ∈ list ↔ Listing (Holds raw oid) dir x := by
  induction h with
  | @mk oid entries htree _ ih =>
    have hcanonical := canonical_tree htree
    -- the part of one entry
    have hpart : ∀ e ∈ entries, ∃ n, ∀ fuel, n ≤ fuel → ∀ dir, ∃ part,
        (if e.mode.type = .tree then raw.walk fuel e.oid (dir ++ e.name ++ [SLASH])
          else .ok [e.listed (dir ++ e.name)]) = .ok part ∧ (part.map TreeEntry.path).Nodup ∧
        ∀ x, x ∈ part ↔ Listing (Below raw e) dir x := by
      intro e he
      have hname := (hcanonical.valid e he).segment
      by_cases hmode : e.mode = .tree
      · obtain ⟨n, hn⟩ := ih e he hmode
        refine ⟨n, fun fuel hfuel dir => ?_⟩
        obtain ⟨list, hwalk, hnodup, hlist⟩ := hn fuel hfuel (dir ++ e.name ++ [SLASH])
        refine ⟨list, by rw [if_pos (type_eq_tree.mpr hmode), hwalk], hnodup, ?_⟩
        intro x
        rw [hlist]
        constructor
        · rintro ⟨path, f, hf, hfile, rfl⟩
          refine ⟨e.name ++ SLASH :: path, f, .inr ⟨_, ?_, hmode, hf⟩, hfile, by simp⟩
          exact splitOn_append_cons_self_of_not_mem hname path
        · rintro ⟨path, f, ⟨-, rfl⟩ | ⟨rest, hrest, -, hf⟩, hfile, rfl⟩
          · exact absurd hmode hfile
          · have hne : rest ≠ [] := by
              rintro rfl
              exact not_holds_nil hf
            have hpath : path = e.name ++ SLASH :: [SLASH].intercalate rest := by
              rw [← @List.intercalate_splitOn _ path _ _ SLASH, hrest,
                intercalate_cons_of_ne_nil hne]
              simp
            have hsplit := splitOn_append_cons_self_of_not_mem hname ([SLASH].intercalate rest)
            rw [← hpath, hrest] at hsplit
            injection hsplit with _ hsplit
            rw [hsplit] at hf
            exact ⟨_, f, hf, hfile, by simp [hpath]⟩
      · refine ⟨0, fun fuel _ dir => ⟨[e.listed (dir ++ e.name)], ?_, by simp, ?_⟩⟩
        · rw [if_neg (fun htype => hmode (type_eq_tree.mp htype))]
        intro x
        rw [mem_singleton]
        constructor
        · rintro rfl
          exact ⟨e.name, e, .inl ⟨splitOn_eq_singleton hname, rfl⟩, hmode, rfl⟩
        · rintro ⟨path, f, ⟨hone, rfl⟩ | ⟨_, -, htree', -⟩, -, rfl⟩
          · have hpath := @List.intercalate_splitOn _ path _ _ SLASH
            rw [hone, intercalate_singleton] at hpath
            rw [hpath]
          · exact absurd htree' hmode
    obtain ⟨n, hn⟩ := exists_fuel hpart
    refine ⟨n + 1, fun fuel hfuel dir => ?_⟩
    obtain ⟨fuel, rfl⟩ : ∃ k, fuel = k + 1 := ⟨fuel - 1, by omega⟩
    have hapart : entries.Pairwise fun e e' => ∀ x y, Listing (Below raw e) dir x →
        Listing (Below raw e') dir y → x.path ≠ y.path := by
      have hdistinct := pairwise_map.mp hcanonical.distinct
      refine hdistinct.imp ?_
      rintro e e' hne x y ⟨path, f, hf, -, rfl⟩ ⟨path', f', hf', -, rfl⟩ heq
      have hpath : path = path' := append_cancel_left heq
      obtain ⟨rest, hrest⟩ := hf.head
      obtain ⟨rest', hrest'⟩ := hf'.head
      rw [hpath, hrest'] at hrest
      injection hrest with hname
      exact hne hname.symm
    obtain ⟨list, hlist, hnodup, hmem⟩ :=
      mapM_flatten (fun e he => hn e he fuel (by omega) dir) hapart
    refine ⟨list, ?_, hnodup, ?_⟩
    · unfold RawObjects.walk
      rw [htree]
      exact hlist
    · intro x
      rw [hmem]
      constructor
      · rintro ⟨e, he, path, f, hf, hfile, rfl⟩
        exact ⟨path, f, (holds_iff htree).mpr ⟨e, he, hf⟩, hfile, rfl⟩
      · rintro ⟨path, f, hf, hfile, rfl⟩
        obtain ⟨e, he, hbelow⟩ := (holds_iff htree).mp hf
        exact ⟨e, he, path, f, hbelow, hfile, rfl⟩

/-- **A listing: its paths are distinct, and none is a directory of another.** -/
theorem Grounded.listTree (h : Grounded raw oid) :
    ∃ n, ∀ fuel, n ≤ fuel → ∃ list, raw.listTree fuel oid = .ok list ∧
      (list.map TreeEntry.path).Nodup ∧
      (∀ x ∈ list, ∀ y ∈ list, ¬ x.path ++ [SLASH] <+: y.path) ∧
      ∀ x, x ∈ list ↔ ∃ f, Holds raw oid (x.path.splitOn SLASH) f ∧ f.mode ≠ .tree ∧
        x = f.listed x.path := by
  obtain ⟨n, hn⟩ := h.walk
  refine ⟨n, fun fuel hfuel => ?_⟩
  obtain ⟨list, hlist, hnodup, hmem⟩ := hn fuel hfuel []
  have hmem' : ∀ x, x ∈ list ↔ ∃ f, Holds raw oid (x.path.splitOn SLASH) f ∧ f.mode ≠ .tree ∧
      x = f.listed x.path := by
    intro x
    rw [hmem]
    constructor
    · rintro ⟨path, f, hf, hfile, rfl⟩
      exact ⟨f, hf, hfile, rfl⟩
    · rintro ⟨f, hf, hfile, hx⟩
      exact ⟨x.path, f, hf, hfile, hx⟩
  refine ⟨list, hlist, hnodup, ?_, hmem'⟩
  rintro x hx y hy ⟨rest, hrest⟩
  obtain ⟨f, hf, hfile, -⟩ := (hmem' x).mp hx
  obtain ⟨g, hg, -⟩ := (hmem' y).mp hy
  have hsplit := @List.splitOn_append_cons_self _ _ _ SLASH x.path rest
  rw [← hrest, append_assoc, singleton_append, hsplit] at hg
  have hthrough := hf.through hg
  rw [if_neg (splitOn_ne_nil _ _)] at hthrough
  exact hfile hthrough

/-- **A look-up follows the segments.** -/
theorem Grounded.lookupFrom {cur : Bytes} (h : Grounded raw cur) {segments : List Text} :
    raw.lookupFrom cur segments = .ok (some f) ↔
      Holds raw cur (segments.map Utf8.encodeText) f := by
  induction segments generalizing cur with
  | nil =>
    constructor
    · nofun
    · exact fun hholds => absurd hholds not_holds_nil
  | cons segment rest ih =>
    obtain ⟨htree, hsub⟩ := h
    next entries =>
    rw [holds_iff htree, map_cons]
    unfold RawObjects.lookupFrom
    rw [htree]
    show (match entries.find? _ with | none => _ | some e => _) = _ ↔ _
    split
    · next hnone =>
      rw [find?_eq_none] at hnone
      constructor
      · nofun
      · rintro ⟨e, he, hbelow⟩
        obtain ⟨_, hcons⟩ := hbelow.head
        injection hcons with hname
        exact absurd (by simp [hname]) (hnone e he)
    · next e hfind =>
      have hmem := mem_of_find?_eq_some hfind
      have hfound := find?_some hfind
      have hname : e.name = Utf8.encodeText segment := eq_of_beq hfound
      have honly : (∃ e' ∈ entries, Below raw e'
          (Utf8.encodeText segment :: rest.map Utf8.encodeText) f) ↔
          Below raw e (Utf8.encodeText segment :: rest.map Utf8.encodeText) f := by
        constructor
        · rintro ⟨e', he', hbelow⟩
          obtain ⟨_, hcons⟩ := hbelow.head
          injection hcons with hname'
          rwa [eq_of_name (canonical_tree htree) hmem he' (hname.trans hname')]
        · exact fun hbelow => ⟨e, hmem, hbelow⟩
      rw [honly]
      split
      · next hlast =>
        subst hlast
        constructor
        · intro hfound
          cases hfound
          exact .inl ⟨by rw [hname]; rfl, rfl⟩
        · rintro (⟨-, rfl⟩ | ⟨rest', hcons, -, hunder⟩)
          · rfl
          · injection hcons with _ hnil
            rw [← hnil] at hunder
            exact absurd hunder not_holds_nil
      next hmore =>
      split
      · next hmode =>
        constructor
        · nofun
        · rintro (⟨hcons, -⟩ | ⟨_, -, htree', -⟩)
          · injection hcons with _ hnil
            exact absurd (map_eq_nil_iff.mp hnil) hmore
          · exact absurd htree' hmode
      · next hmode =>
        rw [not_not] at hmode
        rw [ih (hsub e hmem hmode)]
        constructor
        · exact fun hunder => .inr ⟨_, by rw [hname], hmode, hunder⟩
        · rintro (⟨hcons, -⟩ | ⟨rest', hcons, -, hunder⟩)
          · injection hcons with _ hnil
            exact absurd (map_eq_nil_iff.mp hnil) hmore
          · injection hcons with _ htail
            rwa [htail]

/-! ## §4. The difference of two trees -/

inductive ChangeKind
  | add
  | modify
  | delete
  deriving DecidableEq

structure RepoChangeComputedEntry where
  kind : ChangeKind
  path : Bytes
  mode : TreeMode
  previousMode : Option TreeMode
  blob : Bytes
  containsNul : Bool

def byPath (tree : List TreeEntry) : JsMap Bytes TreeEntry :=
  tree.foldl (fun map e => JsMap.set map e.path e) []

variable {ε : Type} (blob : Bytes → Except ε Bytes)

def containsNul (e : TreeEntry) : Except ε Bool :=
  if e.type = .blob then (blob e.oid).map fun bytes => bytes.contains NUL else .ok false

def deleted (was : TreeEntry) : RepoChangeComputedEntry :=
  ⟨.delete, was.path, was.mode, some was.mode, was.oid, false⟩

/-- What the loop over the later tree pushes for one of its entries. -/
def changeAt (before : JsMap Bytes TreeEntry) (e : TreeEntry) :
    Except ε (List RepoChangeComputedEntry) :=
  match before.get e.path with
  | none => (containsNul blob e).map fun nul => [⟨.add, e.path, e.mode, none, e.oid, nul⟩]
  | some was =>
    if was.type ≠ e.type then
      (containsNul blob e).map fun nul => [deleted was, ⟨.add, e.path, e.mode, none, e.oid, nul⟩]
    else if was.mode ≠ e.mode ∨ was.oid ≠ e.oid then
      (containsNul blob e).map fun nul =>
        [⟨.modify, e.path, e.mode, some was.mode, e.oid, nul⟩]
    else .ok []

def computeEntries (fromTree toTree : List TreeEntry) : Except ε (List RepoChangeComputedEntry) :=
  (((byPath toTree).mapM fun p => changeAt blob (byPath fromTree) p.2).map List.flatten).map
    fun changed => changed ++
      ((byPath fromTree).filter fun p => decide (p.1 ∉ (byPath toTree).keys)).map
        fun p => deleted p.2

/-- What is held at each path. -/
abbrev Files := Bytes → Option (TreeMode × Bytes)

def TreeEntry.file (e : TreeEntry) : TreeMode × Bytes := (e.mode, e.oid)

def held (tree : List TreeEntry) : Files := fun path => ((byPath tree).get path).map TreeEntry.file

/-- An entry applied: a deletion removes the path, anything else sets it. -/
def applied (files : Files) (x : RepoChangeComputedEntry) : Files := fun path =>
  if path = x.path then if x.kind = .delete then none else some (x.mode, x.blob) else files path

variable {blob}

theorem byPath_spec (tree : List TreeEntry) :
    (byPath tree).keys.Nodup ∧ ∀ p ∈ byPath tree, p.2.path = p.1 := by
  unfold byPath
  induction tree using List.reverseRecOn with
  | nil => exact ⟨nodup_nil, by simp⟩
  | append_singleton tree e ih =>
    rw [foldl_append, foldl_cons, foldl_nil]
    refine ⟨JsMap.keys_set_nodup ih.1 _ _, fun p hp => ?_⟩
    rcases JsMap.mem_set.mp hp with rfl | ⟨hp, -⟩
    · rfl
    · exact ih.2 p hp

theorem applied_changeAt {before : JsMap Bytes TreeEntry} {e : TreeEntry} {files : Files}
    {changed : List RepoChangeComputedEntry} (h : changeAt blob before e = .ok changed)
    (hkey : ∀ was, before.get e.path = some was → was.path = e.path)
    (hfiles : files e.path = (before.get e.path).map TreeEntry.file) : changed.foldl applied files =
      fun path => if path = e.path then some e.file else files path := by
  unfold changeAt at h
  split at h
  · obtain ⟨nul, -, rfl⟩ := Throws.map_eq_ok.mp h
    rfl
  next was hwas =>
  have hpath := hkey was hwas
  split at h
  · obtain ⟨nul, -, rfl⟩ := Throws.map_eq_ok.mp h
    funext path
    by_cases hp : path = e.path <;> simp [applied, deleted, hpath, hp, TreeEntry.file]
  split at h
  · obtain ⟨nul, -, rfl⟩ := Throws.map_eq_ok.mp h
    rfl
  next hsame =>
  simp only [not_or, not_not] at hsame
  cases h
  funext path
  by_cases hp : path = e.path
  · rw [hp, if_pos rfl, foldl_nil, hfiles, hwas]
    simp [TreeEntry.file, hsame]
  · rw [if_neg hp, foldl_nil]

theorem applied_changes {before l : JsMap Bytes TreeEntry} {files : Files}
    {parts : List (List RepoChangeComputedEntry)} (hnodup : l.keys.Nodup)
    (hl : ∀ p ∈ l, p.2.path = p.1) (hbefore : ∀ p ∈ before, p.2.path = p.1)
    (h : (l.mapM fun p => changeAt blob before p.2) = .ok parts)
    (hfiles : ∀ path ∈ l.keys, files path = (before.get path).map TreeEntry.file) :
    parts.flatten.foldl applied files =
      fun path => ((l.get path).map TreeEntry.file).or (files path) := by
  induction l generalizing files parts with
  | nil =>
    cases h
    funext path
    simp
  | cons p l ih =>
    obtain ⟨hnot, hnodup⟩ := nodup_cons.mp hnodup
    rw [mapM_cons] at h
    obtain ⟨first, hfirst, h⟩ := Throws.bind_eq_ok.mp h
    obtain ⟨rest, hrest, h⟩ := Throws.bind_eq_ok.mp h
    cases h
    have hpath := hl p mem_cons_self
    have hkey : ∀ was, before.get p.2.path = some was → was.path = p.2.path := fun was hwas =>
      hbefore _ (JsMap.mem_of_get hwas)
    have hhead := applied_changeAt hfirst hkey (by
      rw [hpath]
      exact hfiles p.1 (by simp [JsMap.keys]))
    rw [flatten_cons, foldl_append, hhead,
      ih hnodup (fun q hq => hl q (mem_cons_of_mem _ hq)) hrest]
    · funext path
      by_cases hp : path = p.1
      · have hmiss : JsMap.get l path = none := by
          rw [← Option.not_isSome_iff_eq_none, JsMap.get_isSome, hp]
          exact hnot
        rw [hmiss, hpath]
        simp [JsMap.get, hp]
      · have hskip : JsMap.get (p :: l) path = JsMap.get l path := by
          unfold JsMap.get
          rw [find?_cons_of_neg (by simpa using Ne.symm hp)]
        rw [hskip, hpath, if_neg hp]
    · intro path hmem
      rw [if_neg, hfiles path (mem_cons_of_mem _ hmem)]
      rintro rfl
      rw [hpath] at hmem
      exact hnot hmem

theorem applied_deleted {l : JsMap Bytes TreeEntry} {files : Files}
    (hl : ∀ p ∈ l, p.2.path = p.1) : (l.map fun p => deleted p.2).foldl applied files =
      fun path => if path ∈ l.keys then none else files path := by
  induction l generalizing files with
  | nil =>
    funext path
    simp [JsMap.keys]
  | cons p l ih =>
    rw [map_cons, foldl_cons, ih fun q hq => hl q (mem_cons_of_mem _ hq)]
    funext path
    have hpath := hl p mem_cons_self
    have hfirst : applied files (deleted p.2) path = if path = p.1 then none else files path := by
      rw [← hpath]
      rfl
    have hkeys : path ∈ JsMap.keys (p :: l) ↔ path = p.1 ∨ path ∈ JsMap.keys l := mem_cons
    rw [hfirst]
    by_cases hp : path = p.1
    · rw [if_pos hp, ite_self, if_pos (hkeys.mpr (.inl hp))]
    · rw [if_neg hp]
      by_cases hl : path ∈ JsMap.keys l
      · rw [if_pos hl, if_pos (hkeys.mpr (.inr hl))]
      · rw [if_neg hl, if_neg (fun hmem => (hkeys.mp hmem).elim hp hl)]

/-- **The entries computed lead from the one tree to the other.** -/
theorem applied_computeEntries {fromTree toTree : List TreeEntry}
    {entries : List RepoChangeComputedEntry} (h : computeEntries blob fromTree toTree = .ok entries) :
    entries.foldl applied (held fromTree) = held toTree := by
  obtain ⟨changed, hchanged, rfl⟩ := Throws.map_eq_ok.mp h
  obtain ⟨parts, hparts, rfl⟩ := Throws.map_eq_ok.mp hchanged
  obtain ⟨hnodup, hto⟩ := byPath_spec toTree
  obtain ⟨-, hfrom⟩ := byPath_spec fromTree
  have hchanges := @applied_changes _ _ (byPath fromTree) _ (held fromTree) _ hnodup hto hfrom
    hparts fun _ _ => rfl
  rw [foldl_append, hchanges, applied_deleted]
  · funext path
    have hmem : path ∈ JsMap.keys ((byPath fromTree).filter fun p =>
        decide (p.1 ∉ (byPath toTree).keys)) ↔
        path ∈ (byPath fromTree).keys ∧ path ∉ (byPath toTree).keys := by
      simp only [JsMap.keys, mem_map, mem_filter, decide_eq_true_eq]
      grind
    unfold held
    cases hget : (byPath toTree).get path with
    | some =>
      have hin : path ∈ (byPath toTree).keys := JsMap.get_isSome.mp (by rw [hget]; rfl)
      rw [if_neg (fun hout => (hmem.mp hout).2 hin)]
      rfl
    | none =>
      have hout : path ∉ (byPath toTree).keys := by
        rw [← JsMap.get_isSome, hget]
        simp
      cases hwas : (byPath fromTree).get path with
      | some =>
        have hin : path ∈ (byPath fromTree).keys := JsMap.get_isSome.mp (by rw [hwas]; rfl)
        rw [if_pos (hmem.mpr ⟨hin, hout⟩)]
        rfl
      | none => simp
  · intro p hp
    exact hfrom p (mem_of_mem_filter hp)

/-! ## §5. All of it -/

/-- **The parser accepts canonical trees and nothing else, the readers agree, and the entries
computed lead from the one tree to the other.** -/
theorem trees_agree :
    (∀ hashLength content entries, parseTree hashLength content = .ok entries ↔
      Canonical hashLength entries ∧ content = entries.flatMap encodeEntry) ∧
    (∀ raw root, Grounded raw root → ∃ n, ∀ fuel, n ≤ fuel → ∃ list,
      raw.listTree fuel root = .ok list ∧ (list.map TreeEntry.path).Nodup ∧
      (∀ x ∈ list, ∀ y ∈ list, ¬ x.path ++ [SLASH] <+: y.path) ∧
      ∀ path mode oid, mode ≠ .tree →
        ((∃ e, raw.lookup root path = .ok (some e) ∧ e.mode = mode ∧ e.oid = oid) ↔
          ∃ x ∈ list, x.path = Utf8.encodeText path ∧ x.mode = mode ∧ x.oid = oid)) ∧
    ∀ (ε : Type) (blob : Bytes → Except ε Bytes) fromTree toTree entries,
      computeEntries blob fromTree toTree = .ok entries →
        entries.foldl applied (held fromTree) = held toTree := by
  refine ⟨fun _ _ _ => parseTree_iff, ?_, fun _ _ _ _ _ => applied_computeEntries⟩
  intro raw root hroot
  obtain ⟨n, hn⟩ := hroot.listTree
  refine ⟨n, fun fuel hfuel => ?_⟩
  obtain ⟨list, hlist, hnodup, hprefix, hmem⟩ := hn fuel hfuel
  refine ⟨list, hlist, hnodup, hprefix, ?_⟩
  intro path mode oid hmode
  have hsplit := slash.splitOn_encodeText path
  constructor
  · rintro ⟨e, he, rfl, rfl⟩
    have hholds := hroot.lookupFrom.mp he
    rw [← hsplit] at hholds
    exact ⟨e.listed (Utf8.encodeText path), (hmem _).mpr ⟨e, hholds, hmode, rfl⟩, rfl, rfl, rfl⟩
  · rintro ⟨x, hx, hpath, rfl, rfl⟩
    obtain ⟨f, hholds, -, heq⟩ := (hmem x).mp hx
    rw [hpath] at hholds
    refine ⟨f, hroot.lookupFrom.mpr ?_, by rw [heq]; rfl, by rw [heq]; rfl⟩
    rw [← hsplit]
    exact hholds

end Motebit.Git
