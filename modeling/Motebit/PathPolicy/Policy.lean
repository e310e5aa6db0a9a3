/-
  Motebit.PathPolicy.Policy — WHICH PATHS A PATTERN LIST PERMITS.

  Translated from `packages/verifier/src/repo-path-policy.ts`.  The compiled form is worked out
  anew where the source keeps it.  A refusal is a value with what its message is made of.

  Main results: `compilePattern_iff`, `matchFrom_iff`, `matchesWithDescent_iff`,
  `isRepoPathPermitted_iff`.
-/

import Motebit.Lib.Glob
import Motebit.Lib.JsonText
import Motebit.Lib.Throws
import Motebit.Lib.Utf8

namespace Motebit.PathPolicy

open Motebit.Lib Motebit.Lib.JsonText List

/-! ## §1. Patterns -/

def text (s : String) : Text := toText s.toList

def REPO_PATH_POLICY_SPEC : Text := text "motebit/repo-path-policy@1.0"

/-- `/`. -/
def SLASH : CodeUnit := 47

/-- `*`. -/
def STAR : CodeUnit := 42

inductive Segment
  | globstar
  | glob (text : Text)
  deriving DecidableEq

inductive Refusal
  | notJson
  | unfinished
  | repeatedName (name : Text)
  | notObject
  | missingKey (name : Text)
  | unknownKey (name : Text)
  | otherSpec
  | notArray (key : Text)
  | notString
  | empty
  | twoInARow (pattern : Text)
  | emptySegment (pattern : Text)
  | outside (pattern segment : Text)
  | notWhole (pattern : Text)
  | notAllowed (pattern segment : Text)
  | onlyGlobstar
  | duplicate (pattern : Text)

/-- `A-Z / a-z / 0-9 / "." / "_" / "-"`. -/
def isChar (u : CodeUnit) : Bool :=
  (65 ≤ u.val && u.val ≤ 90) || (97 ≤ u.val && u.val ≤ 122) || (48 ≤ u.val && u.val ≤ 57) ||
    u.val == 46 || u.val == 95 || u.val == 45

def GLOB (seg : Text) : Bool := !seg.isEmpty && seg.all fun u => isChar u || u == STAR

def globstarText : Text := [STAR, STAR]

def compileSegment (pattern : Text) (before : Option Segment) (seg : Text) :
    Except Refusal Segment :=
  if seg = globstarText then
    if before = some .globstar then .error (.twoInARow pattern) else .ok .globstar
  else if seg = [] then .error (.emptySegment pattern)
  else if ¬ GLOB seg then .error (.outside pattern seg)
  else if globstarText <:+: seg then .error (.notWhole pattern)
  else if seg = text "." ∨ seg = text ".." then .error (.notAllowed pattern seg)
  else .ok (.glob seg)

def compileSegments (pattern : Text) (before : Option Segment) :
    List Text → Except Refusal (List Segment)
  | [] => .ok []
  | seg :: rest =>
    (compileSegment pattern before seg).bind fun s =>
      (compileSegments pattern (some s) rest).map (s :: ·)

def compilePattern (pattern : Text) : Except Refusal (List Segment) :=
  if pattern = [] then .error .empty
  else
    (compileSegments pattern none (pattern.splitOn SLASH)).bind fun out =>
      if out = [.globstar] then .error .onlyGlobstar else .ok out

def compileItems (seen : List Text) : List Tree → Except Refusal (List (List Segment))
  | [] => .ok []
  | .string p :: rest =>
    (compilePattern p).bind fun segs =>
      if p ∈ seen then .error (.duplicate p)
      else (compileItems (p :: seen) rest).map (segs :: ·)
  | _ :: _ => .error .notString

def strings (patterns : List Text) : Tree := .array (patterns.map .string)

def compileList (key : Text) : Option Tree → Except Refusal (List (List Segment))
  | some (.array items) => compileItems [] items
  | _ => .error (.notArray key)

structure RepoPathPolicy where
  include_ : List Text
  exclude : List Text
  deriving DecidableEq

structure Compiled where
  include_ : List (List Segment)
  exclude : List (List Segment)

def compiledOf (policy : RepoPathPolicy) : Except Refusal Compiled :=
  (compileList (text "include") (some (strings policy.include_))).bind fun inc =>
    (compileList (text "exclude") (some (strings policy.exclude))).map fun exc => ⟨inc, exc⟩

/-! ## §2. Matching -/

/-- ASCII letters to lower case. -/
def foldUnit (u : CodeUnit) : CodeUnit :=
  if 65 ≤ u.val ∧ u.val ≤ 90 then Fin.ofNat 65536 (u.val + 32) else u

def foldAscii (s : Text) : Text := s.map foldUnit

def cased (fold : Bool) (s : Text) : Text := if fold then foldAscii s else s

def globMatch (glob seg : Text) (fold : Bool) : Bool :=
  Glob.loop STAR (cased fold glob) (cased fold seg) none (Glob.since_none _ _)

def matchFrom (fold : Bool) : List Segment → List Text → Bool
  | [], segs => segs.isEmpty
  | .globstar :: pat, segs =>
    if pat = [] then decide (segs.length ≥ 1) else segs.tails.any (matchFrom fold pat)
  | .glob _ :: _, [] => false
  | .glob glob :: pat, seg :: segs => globMatch glob seg fold && matchFrom fold pat segs

def matchesFile (pat : List Segment) (path : Text) : Bool :=
  matchFrom false pat (path.splitOn SLASH)

def matchesWithDescent (pat : List Segment) (path : Text) (fold : Bool) : Bool :=
  let segs := path.splitOn SLASH
  matchFrom fold pat segs || (List.range' 1 (segs.length - 1)).any fun k =>
    !([SLASH].intercalate (segs.drop k)).isEmpty && matchFrom fold pat (segs.take k)

def LINE_TERMINATORS : List CodeUnit := [10, 13, 0x2028, 0x2029]

inductive RepoPathExclusion
  | exact
  | case_folded
  deriving DecidableEq

def isRepoPathIncluded (compiled : Compiled) (path : Text) : Bool :=
  compiled.include_.any fun pat => matchesFile pat path

def repoPathExclusion (compiled : Compiled) (path : Text) : Option RepoPathExclusion :=
  if compiled.exclude.any fun pat => matchesWithDescent pat path false then some .exact
  else if compiled.exclude.any fun pat => matchesWithDescent pat path true then some .case_folded
  else none

def isRepoPathPermitted (policy : RepoPathPolicy) (path : Text) : Except Refusal Bool :=
  if LINE_TERMINATORS.any fun t => path.contains t then .ok false
  else (compiledOf policy).map fun compiled =>
    isRepoPathIncluded compiled path && (repoPathExclusion compiled path).isNone

/-! ## §3. The documented grammar -/

/-- `glob = 1*( char / "*" )`, no two stars in a row, not `.` or `..`. -/
structure IsGlob (seg : Text) : Prop where
  ne_nil : seg ≠ []
  chars : ∀ u ∈ seg, isChar u = true ∨ u = STAR
  stars : ¬ [STAR, STAR] <:+: seg
  not_self : seg ≠ text "."
  not_parent : seg ≠ text ".."

structure IsPattern (segs : List Text) : Prop where
  segment : ∀ seg ∈ segs, seg = globstarText ∨ IsGlob seg
  apart : ¬ [globstarText, globstarText] <:+: segs
  not_only : segs ≠ [globstarText]

structure IsPatternList (patterns : List Text) : Prop where
  pattern : ∀ p ∈ patterns, IsPattern (p.splitOn SLASH)
  distinct : patterns.Nodup

def RepoPathPolicy.Documented (policy : RepoPathPolicy) : Prop :=
  IsPatternList policy.include_ ∧ IsPatternList policy.exclude

def segmentOf (seg : Text) : Segment := if seg = globstarText then .globstar else .glob seg

theorem compileSegment_iff {pattern seg : Text} {before : Option Segment} {s : Segment} :
    compileSegment pattern before seg = .ok s ↔ s = segmentOf seg ∧
      (seg = globstarText ∨ IsGlob seg) ∧ ¬ (before = some .globstar ∧ seg = globstarText) := by
  unfold compileSegment segmentOf
  split
  · next hstar =>
    split
    · next hbefore =>
      simp [hbefore, hstar]
    next hbefore =>
    constructor
    · intro h
      cases h
      simp [hbefore, hstar]
    · rintro ⟨rfl, -⟩
      rfl
  next hstar =>
  have hglob : IsGlob seg ↔ seg ≠ [] ∧ GLOB seg = true ∧ ¬ globstarText <:+: seg ∧
      ¬ (seg = text "." ∨ seg = text "..") := by
    constructor
    · rintro ⟨hne, hchars, hstars, hself, hparent⟩
      refine ⟨hne, ?_, hstars, not_or.mpr ⟨hself, hparent⟩⟩
      simp only [GLOB, Bool.and_eq_true, Bool.not_eq_true', isEmpty_eq_false_iff,
        all_eq_true, Bool.or_eq_true, beq_iff_eq]
      exact ⟨hne, hchars⟩
    · rintro ⟨hne, hchars, hstars, hdots⟩
      simp only [GLOB, Bool.and_eq_true, Bool.not_eq_true', isEmpty_eq_false_iff,
        all_eq_true, Bool.or_eq_true, beq_iff_eq] at hchars
      exact ⟨hne, hchars.2, hstars, (not_or.mp hdots).1, (not_or.mp hdots).2⟩
  rw [hglob]
  simp only [hstar, false_or, and_false, not_false_eq_true, and_true]
  split
  · next hnil => simp [hnil]
  split
  · next hout => simp [hout]
  split
  · next hwithin => simp [hwithin]
  split
  · next hdots => simp [hdots]
  next hne hin hwithin hdots =>
  simp only [not_not] at hin
  simp only [ne_eq, hne, not_false_eq_true, hin, hwithin, hdots, and_self, and_true]
  exact ⟨fun h => (Except.ok.inj h).symm, fun h => by rw [h]⟩

theorem segmentOf_eq_globstar {seg : Text} : segmentOf seg = .globstar ↔ seg = globstarText := by
  unfold segmentOf
  split <;> simp_all

theorem compileSegments_iff {pattern : Text} {before : Option Text} {segs : List Text}
    {out : List Segment} : compileSegments pattern (before.map segmentOf) segs = .ok out ↔
      out = segs.map segmentOf ∧ (∀ seg ∈ segs, seg = globstarText ∨ IsGlob seg) ∧
        ¬ [globstarText, globstarText] <:+: before.toList ++ segs := by
  induction segs generalizing before out with
  | nil =>
    constructor
    · intro h
      cases h
      refine ⟨rfl, by simp, fun hwithin => ?_⟩
      have hlength := hwithin.length_le
      cases before <;> simp at hlength
    · rintro ⟨rfl, -⟩
      rfl
  | cons seg segs ih =>
    have hwithin : [globstarText, globstarText] <:+: before.toList ++ seg :: segs ↔
        (before.map segmentOf = some .globstar ∧ seg = globstarText) ∨
          [globstarText, globstarText] <:+: seg :: segs := by
      cases before with
      | none => simp
      | some first =>
        show _ <:+: first :: seg :: segs ↔ _
        rw [infix_cons_iff, Option.map_some, Option.some.injEq, segmentOf_eq_globstar,
          cons_prefix_cons, cons_prefix_cons]
        simp [eq_comm]
    have hstep := @ih (some seg)
    rw [hwithin, compileSegments, Throws.bind_eq_ok]
    constructor
    · rintro ⟨s, hseg, hmap⟩
      obtain ⟨rfl, hgrammar, hbefore⟩ := compileSegment_iff.mp hseg
      obtain ⟨rest, hrest, rfl⟩ := Throws.map_eq_ok.mp hmap
      obtain ⟨rfl, hall, hapart⟩ := hstep.mp hrest
      exact ⟨rfl, forall_mem_cons.mpr ⟨hgrammar, hall⟩, not_or.mpr ⟨hbefore, hapart⟩⟩
    · rintro ⟨rfl, hall, hapart⟩
      obtain ⟨hgrammar, hall⟩ := forall_mem_cons.mp hall
      obtain ⟨hbefore, hapart⟩ := not_or.mp hapart
      exact ⟨_, compileSegment_iff.mpr ⟨rfl, hgrammar, hbefore⟩,
        Throws.map_eq_ok.mpr ⟨_, hstep.mpr ⟨rfl, hall, hapart⟩, rfl⟩⟩

def segmentsOf (pattern : Text) : List Segment := (pattern.splitOn SLASH).map segmentOf

/-- **What compiles is the documented grammar.** -/
theorem compilePattern_iff {pattern : Text} {out : List Segment} :
    compilePattern pattern = .ok out ↔
      out = segmentsOf pattern ∧ IsPattern (pattern.splitOn SLASH) := by
  have honly : segmentsOf pattern = [.globstar] ↔ pattern.splitOn SLASH = [globstarText] := by
    unfold segmentsOf
    rw [map_eq_singleton_iff]
    simp only [segmentOf_eq_globstar]
    constructor
    · rintro ⟨a, h, rfl⟩
      exact h
    · exact fun h => ⟨_, h, rfl⟩
  have hsegments := @compileSegments_iff pattern none (pattern.splitOn SLASH)
  unfold compilePattern
  split
  · next hnil =>
    subst hnil
    constructor
    · nofun
    · rintro ⟨-, hpattern⟩
      rcases hpattern.segment [] (by simp) with h | h
      · cases h
      · exact absurd rfl h.ne_nil
  · rw [Throws.bind_eq_ok]
    constructor
    · rintro ⟨segs, hsegs, h⟩
      obtain ⟨rfl, hall, hapart⟩ := hsegments.mp hsegs
      split at h
      · cases h
      · next hne =>
        cases h
        exact ⟨rfl, hall, hapart, fun heq => hne (honly.mpr heq)⟩
    · rintro ⟨rfl, hall, hapart, hne⟩
      refine ⟨segmentsOf pattern, hsegments.mpr ⟨rfl, hall, hapart⟩, ?_⟩
      rw [if_neg (fun heq => hne (honly.mp heq))]

variable {out : List (List Segment)}

theorem compileItems_iff {seen : List Text} {items : List Tree} :
    compileItems seen items = .ok out ↔ ∃ patterns : List Text, items = patterns.map .string ∧
      out = patterns.map segmentsOf ∧
      (∀ p ∈ patterns, IsPattern (p.splitOn SLASH) ∧ p ∉ seen) ∧ patterns.Nodup := by
  induction items generalizing seen out with
  | nil =>
    constructor
    · intro h
      cases h
      exact ⟨[], by simp⟩
    · rintro ⟨patterns, hitems, rfl, -⟩
      rw [map_eq_nil_iff.mp hitems.symm]
      rfl
  | cons item items ih =>
    cases item with
    | string p =>
      rw [compileItems, Throws.bind_eq_ok]
      constructor
      · rintro ⟨segs, hp, h⟩
        obtain ⟨rfl, hpattern⟩ := compilePattern_iff.mp hp
        split at h
        · cases h
        next hseen =>
        obtain ⟨rest, hrest, rfl⟩ := Throws.map_eq_ok.mp h
        obtain ⟨patterns, rfl, rfl, hall, hnodup⟩ := ih.mp hrest
        refine ⟨p :: patterns, rfl, rfl, forall_mem_cons.mpr ⟨⟨hpattern, hseen⟩,
          fun q hq => ⟨(hall q hq).1, ?_⟩⟩,
          nodup_cons.mpr ⟨fun hmem => (hall p hmem).2 (by simp), hnodup⟩⟩
        exact fun hmem => (hall q hq).2 (mem_cons_of_mem _ hmem)
      · rintro ⟨patterns, hitems, rfl, hall, hnodup⟩
        obtain ⟨q, patterns, rfl, heq, rfl⟩ := map_eq_cons_iff.mp hitems.symm
        injection heq with heq
        subst heq
        obtain ⟨⟨hpattern, hseen⟩, hall⟩ := forall_mem_cons.mp hall
        obtain ⟨hnot, hnodup⟩ := nodup_cons.mp hnodup
        refine ⟨_, compilePattern_iff.mpr ⟨rfl, hpattern⟩, ?_⟩
        rw [if_neg hseen]
        refine Throws.map_eq_ok.mpr
          ⟨_, ih.mpr ⟨patterns, rfl, rfl, fun q' hq => ⟨(hall q' hq).1, ?_⟩, hnodup⟩, rfl⟩
        rintro hmem
        rcases mem_cons.mp hmem with rfl | hmem
        · exact hnot hq
        · exact (hall q' hq).2 hmem
    | _ =>
      constructor
      · nofun
      · rintro ⟨patterns, hitems, -⟩
        obtain ⟨q, patterns, -, heq, -⟩ := map_eq_cons_iff.mp hitems.symm
        cases heq

theorem compileList_iff {key : Text} {tree : Option Tree} :
    compileList key tree = .ok out ↔ ∃ patterns, tree = some (strings patterns) ∧
      out = patterns.map segmentsOf ∧ IsPatternList patterns := by
  constructor
  · intro h
    unfold compileList at h
    split at h
    · obtain ⟨patterns, rfl, rfl, hall, hnodup⟩ := compileItems_iff.mp h
      exact ⟨patterns, rfl, rfl, fun p hp => (hall p hp).1, hnodup⟩
    · cases h
  · rintro ⟨patterns, rfl, rfl, hall, hnodup⟩
    exact compileItems_iff.mpr ⟨patterns, rfl, rfl, fun p hp => ⟨hall p hp, by simp⟩, hnodup⟩

theorem strings_inj {patterns patterns' : List Text}
    (h : strings patterns = strings patterns') : patterns = patterns' := by
  injection h with h
  exact map_injective_iff.mpr (fun a b hab => by injection hab) h

variable {policy : RepoPathPolicy} {compiled : Compiled}

/-- **A policy compiles exactly when it is documented.** -/
theorem compiledOf_iff :
    compiledOf policy = .ok compiled ↔ policy.Documented ∧
      compiled = ⟨policy.include_.map segmentsOf, policy.exclude.map segmentsOf⟩ := by
  unfold compiledOf
  rw [Throws.bind_eq_ok]
  constructor
  · rintro ⟨inc, hlist, h⟩
    obtain ⟨exc, hlist', rfl⟩ := Throws.map_eq_ok.mp h
    obtain ⟨patterns, heq, rfl, hinc⟩ := compileList_iff.mp hlist
    obtain ⟨patterns', heq', rfl, hexc⟩ := compileList_iff.mp hlist'
    rw [← strings_inj (Option.some.inj heq)] at hinc ⊢
    rw [← strings_inj (Option.some.inj heq')] at hexc ⊢
    exact ⟨⟨hinc, hexc⟩, rfl⟩
  · rintro ⟨⟨hinc, hexc⟩, rfl⟩
    exact ⟨_, compileList_iff.mpr ⟨_, rfl, rfl, hinc⟩,
      Throws.map_eq_ok.mpr ⟨_, compileList_iff.mpr ⟨_, rfl, rfl, hexc⟩, rfl⟩⟩

/-! ## §4. The declarative reading -/

/-- Segments as a pattern reads them: a `**` that is not the last stands for any number of
segments, the last for one at least. -/
inductive Reads (matching : Text → Text → Prop) : List Segment → List Text → Prop
  | nil : Reads matching [] []
  | last {segs : List Text} : segs ≠ [] → Reads matching [.globstar] segs
  | any {pat : List Segment} {segs : List Text} (more : List Text) : pat ≠ [] →
      Reads matching pat segs → Reads matching (.globstar :: pat) (more ++ segs)
  | glob {glob seg : Text} {pat : List Segment} {segs : List Text} : matching glob seg →
      Reads matching pat segs → Reads matching (.glob glob :: pat) (seg :: segs)

/-- A glob in the path's own case, or with ASCII letters folded. -/
def GlobReads (fold : Bool) (glob seg : Text) : Prop :=
  Glob.Matches STAR (cased fold glob) (cased fold seg)

def PathReads (fold : Bool) (pattern path : Text) : Prop :=
  Reads (GlobReads fold) (segmentsOf pattern) (path.splitOn SLASH)

structure Permitted (policy : RepoPathPolicy) (path : Text) : Prop where
  one_line : ∀ t ∈ LINE_TERMINATORS, t ∉ path
  included : ∃ p ∈ policy.include_, PathReads false p path
  not_excluded : ∀ p ∈ policy.exclude, ¬ PathReads true p path
  not_beneath : ∀ p ∈ policy.exclude, ∀ q rest, path = q ++ SLASH :: rest → rest ≠ [] →
    ¬ PathReads true p q

variable {pat : List Segment} {segs : List Text}

theorem matchFrom_iff {fold : Bool} :
    matchFrom fold pat segs = true ↔ Reads (GlobReads fold) pat segs := by
  induction pat generalizing segs with
  | nil =>
    rw [matchFrom, List.isEmpty_iff]
    constructor
    · rintro rfl
      exact .nil
    · intro h
      cases h
      rfl
  | cons s pat ih =>
    cases s with
    | globstar =>
      rw [matchFrom]
      split
      · next hlast =>
        subst hlast
        rw [decide_eq_true_eq]
        constructor
        · intro h
          exact .last (ne_nil_of_length_pos h)
        · intro h
          cases h with
          | last hne => exact length_pos_iff.mpr hne
          | any _ hne => exact absurd rfl hne
      · next hmore =>
        rw [any_eq_true]
        constructor
        · rintro ⟨rest, hrest, hmatch⟩
          obtain ⟨more, rfl⟩ := (mem_tails _ _).mp hrest
          exact .any more hmore (ih.mp hmatch)
        · intro h
          cases h with
          | last => exact absurd rfl hmore
          | any more _ h => exact ⟨_, (mem_tails _ _).mpr ⟨more, rfl⟩, ih.mpr h⟩
    | glob glob =>
      cases segs with
      | nil =>
        constructor
        · nofun
        · nofun
      | cons =>
        rw [matchFrom, Bool.and_eq_true, ih, globMatch, Glob.matchLoop_iff]
        constructor
        · rintro ⟨hglob, hrest⟩
          exact .glob hglob hrest
        · intro h
          cases h with
          | glob hglob hrest => exact ⟨hglob, hrest⟩

theorem intercalate_append {α : Type} {sep : α} {a b : List (List α)} (ha : a ≠ []) (hb : b ≠ []) :
    [sep].intercalate (a ++ b) = [sep].intercalate a ++ sep :: [sep].intercalate b := by
  induction a with
  | nil => exact absurd rfl ha
  | cons x a ih =>
    cases a with
    | nil => simp [intercalate_cons_of_ne_nil hb]
    | cons =>
      rw [cons_append, intercalate_cons_of_ne_nil (by simp), ih (by simp), intercalate_cons_cons]
      simp

/-- **Descent**: the path, or a path it lies beneath. -/
theorem matchesWithDescent_iff {fold : Bool} {pattern path : Text} :
    matchesWithDescent (segmentsOf pattern) path fold = true ↔ PathReads fold pattern path ∨
      ∃ q rest, path = q ++ SLASH :: rest ∧ rest ≠ [] ∧ PathReads fold pattern q := by
  unfold matchesWithDescent PathReads
  rw [Bool.or_eq_true, matchFrom_iff, any_eq_true]
  have hjoin := @List.intercalate_splitOn _ path _ _ SLASH
  constructor
  · rintro (h | ⟨k, hk, hbeneath⟩)
    · exact .inl h
    · rw [mem_range'_1] at hk
      rw [Bool.and_eq_true, matchFrom_iff, Bool.not_eq_true', isEmpty_eq_false_iff] at hbeneath
      obtain ⟨hne, hreads⟩ := hbeneath
      have hslash : ∀ part ∈ (path.splitOn SLASH).take k, SLASH ∉ part := fun part hpart =>
        Utf8.not_mem_of_mem_splitOn (mem_of_mem_take hpart)
      have hfront : (path.splitOn SLASH).take k ≠ [] := by
        intro hnil
        have hlength := congrArg List.length hnil
        rw [length_take, length_nil] at hlength
        omega
      refine .inr ⟨[SLASH].intercalate ((path.splitOn SLASH).take k), _, ?_, hne, ?_⟩
      · have hsplit := take_append_drop k (path.splitOn SLASH)
        conv_lhs => rw [← hjoin, ← hsplit]
        have hback : (path.splitOn SLASH).drop k ≠ [] := by
          intro hnil
          rw [hnil] at hne
          exact hne rfl
        exact intercalate_append hfront hback
      · rw [splitOn_intercalate _ hslash hfront]
        exact hreads
  · rintro (h | ⟨q, rest, rfl, hne, h⟩)
    · exact .inl h
    · right
      have hsplit := @List.splitOn_append_cons_self _ _ _ SLASH q rest
      have hq : 0 < (q.splitOn SLASH).length := length_pos_iff.mpr (splitOn_ne_nil _ _)
      have hrest : 0 < (rest.splitOn SLASH).length :=
        length_pos_iff.mpr (splitOn_ne_nil _ _)
      refine ⟨(q.splitOn SLASH).length, ?_, ?_⟩
      · rw [mem_range'_1, hsplit, length_append]
        omega
      · rw [hsplit, drop_left, take_left, intercalate_splitOn, Bool.and_eq_true, matchFrom_iff]
        exact ⟨by simpa using hne, h⟩

theorem foldUnit_star (u : CodeUnit) : foldUnit u = STAR ↔ u = STAR := by
  unfold foldUnit
  split
  · next hletter =>
    have hval : (Fin.ofNat 65536 (u.val + 32)).val = u.val + 32 := Nat.mod_eq_of_lt (by omega)
    constructor
    · intro h
      rw [h] at hval
      exact absurd hval (by show ¬ 42 = _; omega)
    · rintro rfl
      exact absurd hletter (by decide)
  · exact Iff.rfl

theorem Reads.fold (h : Reads (GlobReads false) pat segs) : Reads (GlobReads true) pat segs := by
  induction h with
  | nil => exact .nil
  | last hne => exact .last hne
  | any more hne _ ih => exact .any more hne ih
  | glob hglob _ ih => exact .glob (hglob.map foldUnit_star) ih

theorem repoPathExclusion_eq_none {path : Text} {patterns : List Text}
    (h : compiled.exclude = patterns.map segmentsOf) : repoPathExclusion compiled path = none ↔
      ∀ p ∈ patterns, matchesWithDescent (segmentsOf p) path true = false := by
  have hfolded : ∀ p, matchesWithDescent (segmentsOf p) path false = true →
      matchesWithDescent (segmentsOf p) path true = true := by
    intro p hp
    rw [matchesWithDescent_iff] at hp ⊢
    exact hp.imp Reads.fold fun ⟨q, rest, hpath, hne, hq⟩ => ⟨q, rest, hpath, hne, hq.fold⟩
  have hiff : (compiled.exclude.any fun pat => matchesWithDescent pat path true) = false ↔
      ∀ p ∈ patterns, matchesWithDescent (segmentsOf p) path true = false := by
    rw [h]
    simp
  unfold repoPathExclusion
  split
  · next hexact =>
    rw [h, any_map, any_eq_true] at hexact
    obtain ⟨p, hp, hmatch⟩ := hexact
    constructor
    · nofun
    · intro hall
      have hfalse := hall p hp
      rw [hfolded p hmatch] at hfalse
      cases hfalse
  split
  · next hfold =>
    constructor
    · nofun
    · intro hall
      rw [hiff.mpr hall] at hfold
      cases hfold
  · next hfold =>
    rw [Bool.not_eq_true] at hfold
    exact ⟨fun _ => hiff.mp hfold, fun _ => rfl⟩

/-- **What is permitted.** -/
theorem isRepoPathPermitted_iff (h : policy.Documented) (path : Text) :
    ∃ permitted, isRepoPathPermitted policy path = .ok permitted ∧
      (permitted = true ↔ Permitted policy path) := by
  unfold isRepoPathPermitted
  split
  · next hline =>
    refine ⟨false, rfl, ?_⟩
    rw [any_eq_true] at hline
    obtain ⟨t, ht, hmem⟩ := hline
    constructor
    · nofun
    · intro hpermitted
      exact absurd (contains_iff_mem.mp hmem) (hpermitted.one_line t ht)
  · next hline =>
    have hlines : ∀ t ∈ LINE_TERMINATORS, t ∉ path := by
      intro t ht hmem
      exact hline (any_eq_true.mpr ⟨t, ht, contains_iff_mem.mpr hmem⟩)
    rw [compiledOf_iff.mpr ⟨h, rfl⟩]
    refine ⟨_, rfl, ?_⟩
    rw [Bool.and_eq_true, Option.isNone_iff_eq_none, repoPathExclusion_eq_none rfl]
    have hincluded : isRepoPathIncluded ⟨policy.include_.map segmentsOf,
        policy.exclude.map segmentsOf⟩ path = true ↔
        ∃ p ∈ policy.include_, PathReads false p path := by
      unfold isRepoPathIncluded matchesFile PathReads
      rw [any_map, any_eq_true]
      simp only [Function.comp_apply, matchFrom_iff]
    have hexcluded : ∀ p, matchesWithDescent (segmentsOf p) path true = false ↔
        ¬ PathReads true p path ∧ ∀ q rest, path = q ++ SLASH :: rest → rest ≠ [] →
          ¬ PathReads true p q := by
      intro p
      rw [← Bool.not_eq_true, matchesWithDescent_iff, not_or]
      simp only [not_exists, not_and]
    simp only [hincluded, hexcluded]
    constructor
    · rintro ⟨hin, hout⟩
      exact ⟨hlines, hin, fun p hp => (hout p hp).1, fun p hp => (hout p hp).2⟩
    · intro hpermitted
      exact ⟨hpermitted.included,
        fun p hp => ⟨hpermitted.not_excluded p hp, hpermitted.not_beneath p hp⟩⟩

end Motebit.PathPolicy
