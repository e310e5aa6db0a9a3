/-
  Motebit.Git.Commits — A COMMIT'S HEADER, and the commit without its signature.

  Translated from `parseCommit` of `packages/verify/src/git/objects.ts` and `splitSignedCommit` of
  `packages/crypto-openpgp/src/openpgp.ts`.  Both read the bytes as latin-1 text, which is one
  character a byte, so the text is the bytes.

  Main results: `headerEnd_payload`, `parseCommit_payload`.
-/

import Motebit.Git.Trees
import Motebit.Lib.Throws
import Motebit.Lib.Utf8

namespace Motebit.Git

open Motebit.Lib List

/-! ## §1. Parsing -/

/-- `\n`. -/
def LF : UInt8 := 0x0a

/-- The text before the first blank line, and from its two line ends on. -/
def headerEnd : Bytes → Option (Bytes × Bytes)
  | [] => none
  | b :: rest =>
    if b = LF ∧ rest.head? = some LF then some ([], b :: rest)
    else (headerEnd rest).map (Prod.map (b :: ·) id)

/-- `[0-9a-f]`. -/
def isHexDigit (b : UInt8) : Bool := (48 ≤ b && b ≤ 57) || (97 ≤ b && b ≤ 102)

/-- The value of a line that starts with a key and a space. -/
def valueOf (key : String) (line : Bytes) : Option Bytes :=
  if ascii key ++ [SPACE] <+: line then some (line.drop (ascii key ++ [SPACE]).length) else none

/-- The object id of a `tree` or `parent` line. -/
def oidOf (key : String) (hashLength : Nat) (line : Bytes) : Option Bytes :=
  (valueOf key line).filter fun v => v.length == hashLength * 2 && v.all isHexDigit

/-- The parents, and the lines behind them. -/
def parentsOf (hashLength : Nat) : List Bytes → List Bytes × List Bytes
  | [] => ([], [])
  | line :: rest =>
    match oidOf "parent" hashLength line with
    | some p => (p :: (parentsOf hashLength rest).1, (parentsOf hashLength rest).2)
    | none => ([], line :: rest)

structure RawCommit where
  tree : Bytes
  parents : List Bytes
  committer : Bytes
  raw : Bytes

inductive CommitError
  | notTerminated
  | noTree
  | noAuthor
  | noCommitter
  | outOfPlace
  deriving DecidableEq

/-- A header that has its place in front. -/
def isPlaced (line : Bytes) : Bool :=
  ["tree", "parent", "author", "committer"].any fun key => (valueOf key line).isSome

/-- `parseCommit`, of the header's lines. -/
def parseLines (hashLength : Nat) (raw : Bytes) (lines : List Bytes) :
    Except CommitError RawCommit :=
  match oidOf "tree" hashLength (lines.headD []) with
  | none => .error .noTree
  | some tree =>
    let (parents, rest) := parentsOf hashLength lines.tail
    if (valueOf "author" (rest.headD [])).isNone then .error .noAuthor
    else
      match valueOf "committer" (rest.tail.headD []) with
      | none => .error .noCommitter
      | some committer =>
        if (rest.drop 2).any isPlaced then .error .outOfPlace
        else .ok ⟨tree, parents, committer, raw⟩

def parseCommit (raw : Bytes) (hashLength : Nat) : Except CommitError RawCommit :=
  match headerEnd raw with
  | some (header, _) => parseLines hashLength raw (header.splitOn LF)
  | none =>
    if raw.getLast? = some LF then parseLines hashLength raw (raw.dropLast.splitOn LF)
    else .error .notTerminated

/-! ## §2. The signature taken out -/

inductive GitObjectFormat
  | sha1
  | sha256
  deriving DecidableEq

def signatureHeader : GitObjectFormat → String
  | .sha1 => "gpgsig"
  | .sha256 => "gpgsig-sha256"

/-- `/^(?:gpgsig|gpgsig-sha256|mergetag|encoding) /`. -/
def otherHeader (line : Bytes) : Option String :=
  ["gpgsig", "gpgsig-sha256", "mergetag", "encoding"].find? fun key => (valueOf key line).isSome

def isContinuation (line : Bytes) : Bool := line.head? == some SPACE

/-- The signature's lines; an empty last continuation is dropped. -/
def signatureLines (first : Bytes) (continued : List Bytes) : List Bytes :=
  let lines := first :: continued.map List.tail
  if lines.length > 1 ∧ lines.getLast? = some [] then lines.dropLast else lines

/-- The loop of `splitSignedCommit`: the lines kept, and each signature's. -/
def splitLines (header : String) : List Bytes → Except String (List Bytes × List (List Bytes))
  | [] => .ok ([], [])
  | line :: rest =>
    match valueOf header line with
    | some first =>
      (splitLines header (rest.dropWhile isContinuation)).map fun split =>
        (split.1, signatureLines first (rest.takeWhile isContinuation) :: split.2)
    | none =>
      match otherHeader line with
      | some key => .error ("the commit carries a " ++ key ++ " header")
      | none => (splitLines header rest).map fun split => (line :: split.1, split.2)
termination_by lines => lines.length
decreasing_by
  · exact Nat.lt_succ_of_le (dropWhile_sublist _).length_le
  · exact Nat.lt_succ_self _

def splitSignedCommit (raw : Bytes) (objectFormat : GitObjectFormat) :
    Except String (Bytes × Bytes) :=
  match headerEnd raw with
  | none => .error "the commit has no message separator"
  | some (header, tail) =>
    (splitLines (signatureHeader objectFormat) (header.splitOn LF)).bind fun split =>
      match split.2 with
      | [] => .error "the commit has no signature"
      | [sig] => .ok ([LF].intercalate split.1 ++ tail, [LF].intercalate sig ++ [LF])
      | _ => .error "the commit has more than one signature"

/-! ## §3. Where the header ends -/

variable {line : Bytes} {lines : List Bytes} {objectFormat : GitObjectFormat}

theorem headerEnd_append (h : LF ∉ line) (t : Bytes) :
    headerEnd (line ++ t) = (headerEnd t).map (Prod.map (line ++ ·) id) := by
  induction line with
  | nil => cases hend : headerEnd t <;> simp [hend, Prod.map]
  | cons b line ih =>
    obtain ⟨hb, hline⟩ := not_or.mp (fun hmem => h (mem_cons.mpr hmem))
    rw [cons_append, headerEnd, if_neg (fun hand => hb hand.1.symm), ih hline]
    cases headerEnd t <;> rfl

/-- The header of lines that are all there. -/
theorem headerEnd_payload (hne : lines ≠ []) (hlines : ∀ line ∈ lines, line ≠ [] ∧ LF ∉ line)
    (rest : Bytes) : headerEnd ([LF].intercalate lines ++ LF :: LF :: rest) =
      some ([LF].intercalate lines, LF :: LF :: rest) := by
  induction lines with
  | nil => exact absurd rfl hne
  | cons line lines ih =>
    obtain ⟨⟨-, hline⟩, hall⟩ := forall_mem_cons.mp hlines
    cases lines with
    | nil =>
      rw [intercalate_singleton, headerEnd_append hline, headerEnd, if_pos ⟨rfl, rfl⟩]
      simp
    | cons next lines =>
      have hnext := hall next mem_cons_self
      have hhead : ([LF].intercalate (next :: lines) ++ LF :: LF :: rest).head? ≠ some LF := by
        cases next with
        | nil => exact absurd rfl hnext.1
        | cons =>
          rw [intercalate_cons_cons_left, cons_append, head?_cons]
          intro hb
          rw [Option.some.inj hb] at hnext
          exact hnext.2 mem_cons_self
      rw [intercalate_cons_cons, append_assoc, append_assoc,
        headerEnd_append hline, singleton_append, headerEnd,
        if_neg (fun hand => hhead hand.2), ih (cons_ne_nil _ _) hall]
      simp

/-- What stands behind a header, and no empty line in it but the first. -/
theorem headerEnd_spec {raw header tail : Bytes} (h : headerEnd raw = some (header, tail)) :
    (∃ rest, tail = LF :: LF :: rest) ∧ (∀ line ∈ (header.splitOn LF).tail, line ≠ []) ∧
      (header.head? = some LF ∨ header = [] ∨ (header.splitOn LF).headD [] ≠ []) ∧
      (header = [] → raw.head? = some LF) ∧ (header.head? = some LF → raw.head? = some LF) := by
  induction raw generalizing header with
  | nil => cases h
  | cons b raw ih =>
    rw [headerEnd] at h
    split at h
    · next hend =>
      cases h
      obtain ⟨rfl, hhead⟩ := hend
      cases raw with
      | nil => cases hhead
      | cons c raw =>
        cases hhead
        exact ⟨⟨raw, rfl⟩, by simp, by simp, by simp, by simp⟩
    · next hend =>
      obtain ⟨⟨header', tail'⟩, hrest, heq⟩ := Option.map_eq_some_iff.mp h
      cases heq
      obtain ⟨htail, hlines, hfirst, hempty, hlead⟩ := ih hrest
      refine ⟨htail, ?_, ?_, by simp, by simp⟩
      · show ∀ line ∈ ((b :: header').splitOn LF).tail, line ≠ []
        rw [splitOn_cons_eq_if_modifyHead]
        by_cases hb : b = LF
        · rw [if_pos (by simp [hb])]
          have hstart : ¬ raw.head? = some LF := fun hhead => hend ⟨hb, hhead⟩
          cases hsplit : header'.splitOn LF with
          | nil => exact absurd hsplit (splitOn_ne_nil _ _)
          | cons =>
            rw [hsplit] at hlines hfirst
            intro line hline
            rcases mem_cons.mp hline with rfl | hline
            · rcases hfirst with hlf | hnil | hne
              · exact absurd (hlead hlf) hstart
              · exact absurd (hempty hnil) hstart
              · exact hne
            · exact hlines line hline
        · rw [if_neg (by simp [hb])]
          cases hsplit : header'.splitOn LF with
          | nil => exact absurd hsplit (splitOn_ne_nil _ _)
          | cons =>
            rwa [hsplit] at hlines
      · by_cases hb : b = LF
        · exact .inl (by simp [hb])
        · right
          right
          show ((b :: header').splitOn LF).headD [] ≠ []
          rw [splitOn_cons_eq_if_modifyHead, if_neg (by simp [hb])]
          cases hsplit : header'.splitOn LF with
          | nil => exact absurd hsplit (splitOn_ne_nil _ _)
          | cons => simp

/-! ## §4. What the payload says -/

variable {key : String}

theorem valueOf_isSome : (valueOf key line).isSome = true ↔ ascii key ++ [SPACE] <+: line := by
  unfold valueOf
  split <;> simp_all

/-- Two keys on one line. -/
theorem eq_of_prefixes {a b : Bytes} (ha : SPACE ∉ a) (hb : SPACE ∉ b) (hpa : a ++ [SPACE] <+: line)
    (hpb : b ++ [SPACE] <+: line) : a = b := by
  obtain ⟨r, hr⟩ := hpa
  obtain ⟨r', hr'⟩ := hpb
  rw [append_assoc, singleton_append] at hr hr'
  have hcut : cutAt SPACE line = some (a, r) := cutAt_eq_some.mpr ⟨ha, hr.symm⟩
  have hcut' : cutAt SPACE line = some (b, r') := cutAt_eq_some.mpr ⟨hb, hr'.symm⟩
  rw [hcut] at hcut'
  injection hcut' with hpair
  injection hpair

variable {split : List Bytes × List (List Bytes)}

/-- A line that has its place in front is kept. -/
theorem splitLines_placed {rest : List Bytes} (hline : isPlaced line = true)
    (h : splitLines (signatureHeader objectFormat) (line :: rest) = .ok split) :
    ∃ kept, split.1 = line :: kept ∧
      splitLines (signatureHeader objectFormat) rest = .ok (kept, split.2) := by
  obtain ⟨key, hkey, hsome⟩ := any_eq_true.mp hline
  have hprefix := valueOf_isSome.mp hsome
  have hno : ∀ other ∈ ["gpgsig", "gpgsig-sha256", "mergetag", "encoding"],
      valueOf other line = none := by
    intro other hother
    rw [← Option.not_isSome_iff_eq_none, valueOf_isSome]
    intro hprefix'
    have hkeys : ∀ k ∈ ["tree", "parent", "author", "committer"], SPACE ∉ ascii k ∧
        ∀ o ∈ ["gpgsig", "gpgsig-sha256", "mergetag", "encoding"],
          SPACE ∉ ascii o ∧ ascii k ≠ ascii o := by decide
    obtain ⟨hspace, hothers⟩ := hkeys key hkey
    obtain ⟨hspace', hne⟩ := hothers other hother
    exact hne (eq_of_prefixes hspace hspace' hprefix hprefix')
  have hheader : valueOf (signatureHeader objectFormat) line = none := by
    apply hno
    cases objectFormat <;> decide
  have hother : otherHeader line = none := by
    unfold otherHeader
    rw [find?_eq_none]
    intro other hmem
    simp [hno other hmem]
  rw [splitLines, hheader] at h
  rw [hother] at h
  obtain ⟨⟨kept, sigs⟩, hrest, rfl⟩ := Throws.map_eq_ok.mp h
  exact ⟨kept, rfl, hrest⟩

theorem splitLines_subset {header : String}
    (h : splitLines header lines = .ok split) : split.1 ⊆ lines := by
  induction lines using splitLines.induct header generalizing split with
  | case1 =>
    rw [splitLines] at h
    cases h
    simp
  | case2 line rest first hfirst ih =>
    rw [splitLines, hfirst] at h
    obtain ⟨split', hrest, rfl⟩ := Throws.map_eq_ok.mp h
    intro x hx
    exact mem_cons_of_mem _ ((dropWhile_sublist _).subset (ih hrest hx))
  | case3 line rest hnone key hkey =>
    rw [splitLines, hnone] at h
    rw [hkey] at h
    cases h
  | case4 line rest hnone hkey ih =>
    rw [splitLines, hnone] at h
    rw [hkey] at h
    obtain ⟨split', hrest, rfl⟩ := Throws.map_eq_ok.mp h
    exact cons_subset_cons _ (ih hrest)

theorem isPlaced_of {v : Bytes} (hkey : key ∈ ["tree", "parent", "author",
    "committer"]) (h : valueOf key line = some v) : isPlaced line = true :=
  any_eq_true.mpr ⟨key, hkey, by rw [h]; rfl⟩

theorem valueOf_of_oidOf {n : Nat} {v : Bytes} (h : oidOf key n line = some v) :
    valueOf key line = some v := (Option.filter_eq_some_iff.mp h).1

variable {hashLength : Nat}

/-- The parents are kept, with all that stands behind them. -/
theorem parentsOf_kept (h : splitLines (signatureHeader objectFormat) lines = .ok split)
    (hstop : ∀ line ∈ (parentsOf hashLength lines).2.head?, isPlaced line = true) :
    ∃ kept, splitLines (signatureHeader objectFormat) (parentsOf hashLength lines).2 =
        .ok (kept, split.2) ∧
      parentsOf hashLength split.1 = ((parentsOf hashLength lines).1, kept) := by
  induction lines generalizing split with
  | nil =>
    rw [splitLines] at h
    cases h
    exact ⟨[], by rw [parentsOf, splitLines], rfl⟩
  | cons line lines ih =>
    rw [parentsOf] at hstop ⊢
    split at hstop
    · next p hp =>
      obtain ⟨kept, hkept, hrest⟩ := splitLines_placed
        (isPlaced_of (by simp) (valueOf_of_oidOf hp)) h
      obtain ⟨kept', hkept', hparents⟩ := ih hrest hstop
      rw [hkept, parentsOf, hp]
      exact ⟨kept', hkept', by rw [hparents]⟩
    · next hp =>
      obtain ⟨kept, hkept, hrest⟩ := splitLines_placed (hstop line rfl) h
      refine ⟨split.1, h, ?_⟩
      rw [hkept, parentsOf, hp]

/-- **The payload parses to the same tree, parents and committer.** -/
theorem parseCommit_payload {raw payload signature : Bytes} {commit : RawCommit}
    (hsplit : splitSignedCommit raw objectFormat = .ok (payload, signature))
    (hparse : parseCommit raw hashLength = .ok commit) :
    parseCommit payload hashLength = .ok { commit with raw := payload } := by
  unfold splitSignedCommit at hsplit
  unfold parseCommit at hparse
  cases hheader : headerEnd raw with
  | none =>
    rw [hheader] at hsplit
    cases hsplit
  | some found =>
    obtain ⟨header, tail⟩ := found
    rw [hheader] at hsplit hparse
    dsimp only at hsplit hparse
    obtain ⟨split, hlines, hsplit⟩ := Throws.bind_eq_ok.mp hsplit
    obtain ⟨⟨rest, rfl⟩, hnonempty, -⟩ := headerEnd_spec hheader
    have hpayload : payload = [LF].intercalate split.1 ++ LF :: LF :: rest := by
      split at hsplit
      · cases hsplit
      · cases hsplit
        rfl
      · cases hsplit
    unfold parseLines at hparse
    split at hparse
    · cases hparse
    next tree htree =>
    cases hcut : header.splitOn LF with
    | nil => exact absurd hcut (splitOn_ne_nil _ _)
    | cons first lines =>
      rw [hcut] at hparse hlines hnonempty htree
      dsimp only [tail_cons] at hparse hnonempty
      have htree' : oidOf "tree" hashLength first = some tree := htree
      have hplaced := isPlaced_of (by simp) (valueOf_of_oidOf htree')
      obtain ⟨kept, hkept, hkeptlines⟩ := splitLines_placed hplaced hlines
      split at hparse
      · cases hparse
      next hauthor =>
      split at hparse
      · cases hparse
      next committer hcommitter =>
      split at hparse
      · cases hparse
      next hout =>
      cases hparse
      -- the author and the committer, in front of what is filtered
      cases hrest : (parentsOf hashLength lines).2 with
      | nil =>
        rw [hrest] at hauthor
        exact absurd rfl hauthor
      | cons author others =>
        rw [hrest] at hauthor hcommitter hout
        have hauthor' : isPlaced author = true := by
          cases hvalue : valueOf "author" author with
          | none =>
            have hnone : (valueOf "author" author).isNone = true := by rw [hvalue]; rfl
            exact absurd hnone hauthor
          | some => exact isPlaced_of (by simp) hvalue
        obtain ⟨behind, hbehind, hparents⟩ := parentsOf_kept hkeptlines (by
          rw [hrest]
          rintro line ⟨⟩
          exact hauthor')
        rw [hrest] at hbehind
        obtain ⟨behind, rfl, hbehind⟩ := splitLines_placed hauthor' hbehind
        cases others with
        | nil =>
          have hnone : valueOf "committer" [] = none := by decide
          cases hcommitter
        | cons committed =>
          have hcommitter' : valueOf "committer" committed = some committer := hcommitter
          obtain ⟨behind, rfl, hbehind⟩ :=
            splitLines_placed (isPlaced_of (by simp) hcommitter') hbehind
          have hsubset := splitLines_subset hbehind
          have hall : ∀ line ∈ split.1, line ≠ [] ∧ LF ∉ line := by
            intro line hline
            have hmem : line ∈ header.splitOn LF := by
              rw [hcut]
              exact splitLines_subset hlines hline
            refine ⟨?_, Utf8.not_mem_of_mem_splitOn hmem⟩
            rw [hcut] at hmem
            rcases mem_cons.mp hmem with rfl | hmem
            · rintro rfl
              have hnone : oidOf "tree" hashLength [] = none := by
                unfold oidOf
                rfl
              cases htree'
            · exact hnonempty line hmem
          have hend := headerEnd_payload (by rw [hkept]; simp) hall rest
          unfold parseCommit
          rw [hpayload, hend]
          dsimp only
          rw [splitOn_intercalate _ (fun line hline => (hall line hline).2) (by rw [hkept]; simp),
            hkept]
          unfold parseLines
          have hstands : ¬ (valueOf "author" ((author :: committed :: behind).headD [])).isNone =
              true := hauthor
          have hstands' : valueOf "committer" ((author :: committed :: behind).tail.headD []) =
              some committer := hcommitter'
          rw [headD_cons, htree', tail_cons, hparents]
          dsimp only
          rw [if_neg hstands, hstands']
          dsimp only
          rw [if_neg]
          intro hany
          apply hout
          obtain ⟨line, hline, hp⟩ := any_eq_true.mp hany
          exact any_eq_true.mpr ⟨line, hsubset hline, hp⟩

end Motebit.Git
