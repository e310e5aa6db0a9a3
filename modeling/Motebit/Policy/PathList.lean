/-
  Motebit.Policy.PathList — WHICH PATHS THE ALLOW-LIST CONFINES.

  The gate compares the text of a path with the listed ones; a file tool resolves it.

  Main result: `pathAllowList_confines_iff`.
-/

import Motebit.Policy.CacheHistory

namespace Motebit.Policy

open List

/-- The segments of an absolute path. -/
def segments (path : String) : Option (List (List Char)) :=
  match path.toList with
  | '/' :: rest => some (rest.splitOn '/')
  | _ => none

/-- A segment that names an entry: not empty, not `.` and not `..`. -/
def isName (seg : List Char) : Bool := seg != [] && seg != ['.'] && seg != ['.', '.']

/-- Lexical normalization. -/
def resolve (segs : List (List Char)) : List (List Char) :=
  (segs.foldl (fun up seg =>
    if isName seg then seg :: up else if seg = ['.', '.'] then up.tail else up) []).reverse

/-- An absolute normalized path; a directory may be written with its slash. -/
def Normalized (p : String) (names : List (List Char)) : Prop :=
  names.all isName = true ∧ (segments p = some names ∨ segments p = some (names ++ [[]]))

/-- Once it is resolved, the path is a listed one or lies below one. -/
def Confined (allowed : List String) (path : String) : Prop :=
  ∃ p ∈ allowed, ∃ names segs, Normalized p names ∧ segments path = some segs ∧ names <+: resolve segs

/-- What stands before the first segment that names no entry is still there once the path is
    resolved. -/
def Steady (path : String) : Prop :=
  path ≠ "" ∧ ∀ segs, segments path = some segs → segs.takeWhile isName <+: resolve segs

theorem segments_eq_some {path : String} {segs : List (List Char)} :
    segments path = some segs ↔ ∃ rest, path.toList = '/' :: rest ∧ rest.splitOn '/' = segs := by
  unfold segments
  split
  · next heq => simp [heq]
  · next hne => exact ⟨nofun, fun ⟨rest, heq, _⟩ => absurd heq (hne rest)⟩

theorem endsWith_slash (p : String) : p.endsWith "/" = true ↔ ['/'] <:+ p.toList := by
  rw [← String.endsWith_toSlice, String.Slice.endsWith_string_iff]
  simp

variable {p path : String} {names segs : List (List Char)}

theorem Normalized.lead (hp : Normalized p names) (h : segments p = some segs) :
    segs.takeWhile isName = names := by
  obtain ⟨hnames, hsegs | hsegs⟩ := hp <;> rw [hsegs] at h <;> cases h
  · simpa using @takeWhile_append_of_pos _ isName names [] (all_eq_true.mp hnames)
  · rw [takeWhile_append_of_pos (all_eq_true.mp hnames)]
    exact append_nil _

/-- The comparison of one listed path with the argument. -/
theorem names_prefix (hp : Normalized p names) (h : (path == p ||
      (if p.endsWith "/" then p else p ++ "/").toList.isPrefixOf path.toList) = true) :
    ∃ segs, segments path = some segs ∧ names <+: segs := by
  obtain ⟨segs, hspells⟩ : ∃ segs, segments p = some segs := by
    rcases hp.2 with hsegs | hsegs <;> exact ⟨_, hsegs⟩
  have hlead := hp.lead hspells
  rcases Bool.or_eq_true_iff.mp h with heq | hprefix
  · rw [beq_iff_eq.mp heq, ← hlead]
    exact ⟨segs, hspells, takeWhile_prefix _⟩
  obtain ⟨q, hq, hsplit⟩ := segments_eq_some.mp hspells
  rw [ isPrefixOf_iff_prefix] at hprefix
  split at hprefix
  · next hslash =>
    obtain ⟨r, hr⟩ := hprefix
    rw [hq, cons_append] at hr
    refine ⟨_, segments_eq_some.mpr ⟨q ++ r, hr.symm, rfl⟩, ?_⟩
    rw [endsWith_slash, hq] at hslash
    -- the listed path ends in a slash: its last segment is the empty one
    obtain ⟨front, hfront, hmore⟩ : ∃ front, q.splitOn '/' = front ++ [[]] ∧
        (q ++ r).splitOn '/' = front ++ r.splitOn '/' := by
      rcases eq_nil_or_concat q with rfl | ⟨q', c, rfl⟩
      · exact ⟨[], splitOn_nil _, rfl⟩
      · rw [concat_eq_append] at hslash ⊢
        obtain ⟨t, ht⟩ := hslash
        rw [← cons_append] at ht
        cases (append_inj' ht rfl).2
        exact ⟨q'.splitOn '/', splitOn_append_cons_self _ _,
          by rw [append_assoc]; exact splitOn_append_cons_self _ _⟩
    rw [hmore, ← hlead, ← hsplit, hfront, takeWhile_append]
    split
    · exact prefix_append_of_prefix (by simp [isName])
    · exact ( takeWhile_prefix _).trans (prefix_append _ _)
  · obtain ⟨r, hr⟩ := hprefix
    rw [String.toList_append, hq, cons_append, cons_append, append_assoc] at hr
    refine ⟨_, segments_eq_some.mpr ⟨_, hr.symm, rfl⟩, ?_⟩
    show names <+: (q ++ '/' :: r).splitOn '/'
    rw [splitOn_append_cons_self, hsplit, ← hlead]
    exact ( takeWhile_prefix _).trans (prefix_append _ _)

theorem slash_intercalate (x : List Char) (more lead : List (List Char)) :
    '/' :: ['/'].intercalate (lead ++ x :: more) =
      lead.flatMap ('/' :: ·) ++ '/' :: ['/'].intercalate (x :: more) := by
  induction lead with
  | nil => rfl
  | cons l lead ih =>
    rw [cons_append, intercalate_cons_of_ne_nil (by simp)]
    simp [ih]

theorem slash_not_mem (rest : List Char) : ∀ l ∈ rest.splitOn '/', '/' ∉ l := by
  induction rest with
  | nil => simp
  | cons c rest ih =>
    rw [splitOn_cons_eq_if_modifyHead]
    cases h : rest.splitOn '/' with
    | nil => cases splitOn_ne_nil _ _ h
    | cons l more =>
      rw [h, forall_mem_cons] at ih
      split
      · simpa using ih
      · next hc => exact forall_mem_cons.mpr ⟨not_mem_cons_of_ne_of_not_mem (fun h => hc (beq_iff_eq.mpr h.symm)) ih.1, ih.2⟩

/-- The directory a path is spelled under until its first segment that names no entry. -/
theorem exists_listed (h : segments path = some segs) :
    ∃ p, Normalized p (segs.takeWhile isName) ∧ (path == p ||
      (if p.endsWith "/" then p else p ++ "/").toList.isPrefixOf path.toList) = true := by
  have hnames : (segs.takeWhile isName).all isName = true := all_takeWhile
  obtain ⟨rest, hpath, hsplit⟩ := segments_eq_some.mp h
  have hcut := segs.takeWhile_append_dropWhile (p := isName)
  generalize segs.takeWhile isName = lead at hnames hcut ⊢
  cases hdrop : segs.dropWhile isName with
  | nil =>
    rw [hdrop, append_nil] at hcut
    exact ⟨path, ⟨hnames, .inl (hcut ▸ h)⟩, by simp⟩
  | cons x more =>
    rw [hdrop] at hcut
    refine ⟨.ofList ('/' :: ['/'].intercalate (lead ++ [[]])), ⟨hnames, .inr ?_⟩, ?_⟩
    · refine segments_eq_some.mpr ⟨_, String.toList_ofList, splitOn_intercalate '/' ?_ (by simp)⟩
      rw [forall_mem_append]
      rw [← hsplit] at hcut
      exact ⟨fun l hl => slash_not_mem rest l (hcut ▸ mem_append_left _ hl), by simp⟩
    · have hlist := slash_intercalate [] [] lead
      have hrest : ['/'].intercalate (rest.splitOn '/') = rest := intercalate_splitOn '/'
      rw [if_pos ((endsWith_slash _).mpr ?_), Bool.or_eq_true, isPrefixOf_iff_prefix, hpath,
        String.toList_ofList, hlist, ← hrest, hsplit, ← hcut, slash_intercalate]
      · exact .inr ((prefix_append_right_inj _).mpr (by simp))
      · rw [String.toList_ofList, hlist]
        exact suffix_append _ _

/-- **Where the allow-list confines a path**: every list of normalized paths that lets a path pass
    confines it exactly when the path is steady. -/
theorem pathAllowList_confines_iff (gate : PolicyGate) (path : String) :
    (∀ (allowed : List String) (args : ToolArgs), (∀ p ∈ allowed, ∃ names, Normalized p names) →
      args.path = some path →
      { gate with config.pathAllowList := some allowed }.pathDenial args = none →
      Confined allowed path) ↔ Steady path := by
  have hdenial (allowed : List String) (args : ToolArgs) (hne : path ≠ "")
      (hpath : args.path = some path) :
      { gate with config.pathAllowList := some allowed }.pathDenial args = none ↔
        ∃ p ∈ allowed, (path == p || (if p.endsWith "/" then p else p ++ "/").toList.isPrefixOf
          path.toList) = true := by
    have hgiven : args.path.filter (· ≠ "") = some path := by simp [hpath, hne]
    unfold PolicyGate.pathDenial
    rw [hgiven]
    simp [or_iff_not_imp_left]
  constructor
  · intro h
    have hne : path ≠ "" := by
      rintro rfl
      obtain ⟨p, hp, -⟩ := h [] ⟨some "", none⟩ nofun rfl rfl
      cases hp
    refine ⟨hne, fun segs hsegs => ?_⟩
    obtain ⟨p, hp, hlisted⟩ := exists_listed hsegs
    obtain ⟨p', hmem, names, segs', hp', hsegs', hbelow⟩ := h [p] ⟨some path, none⟩
      (by simpa using ⟨_, hp⟩) rfl ((hdenial _ _ hne rfl).mpr ⟨p, mem_singleton_self p, hlisted⟩)
    cases mem_singleton.mp hmem
    cases hsegs.symm.trans hsegs'
    obtain ⟨own, hown⟩ : ∃ own, segments p = some own := by
      rcases hp.2 with hown | hown <;> exact ⟨_, hown⟩
    rwa [← hp.lead hown, hp'.lead hown]
  · rintro ⟨hne, hsteady⟩ allowed args hlist hpath hpass
    obtain ⟨p, hmem, hlisted⟩ := (hdenial allowed args hne hpath).mp hpass
    obtain ⟨names, hp⟩ := hlist p hmem
    obtain ⟨segs, hsegs, hbelow⟩ := names_prefix hp hlisted
    refine ⟨p, hmem, names, segs, hp, hsegs, .trans ?_ (hsteady segs hsegs)⟩
    obtain ⟨more, rfl⟩ := hbelow
    rw [takeWhile_append_of_pos (all_eq_true.mp hp.1)]
    exact prefix_append _ _

/-- `/a/../etc` passes the list `["/a"]`. -/
theorem pathAllowList_traversal :
    { PolicyGate.new (plainConfig .R0_READ false) DEFAULT_BUDGET 0 with
        config.pathAllowList := some ["/a"] }.pathDenial ⟨some "/a/../etc", none⟩ = none ∧
      (∃ names, Normalized "/a" names) ∧ ¬ Confined ["/a"] "/a/../etc" := by
  have ha : segments "/a" = some [['a']] := by decide
  refine ⟨?_, ⟨[['a']], by decide, .inl ha⟩, ?_⟩
  · have hslash : ¬ "/a".endsWith "/" := mt (endsWith_slash _).mp (by decide)
    show (if (["/a"].any fun p => _) then none else _) = none
    rw [any_cons, if_neg hslash]
    decide
  · rintro ⟨p, hmem, names, segs, hp, hsegs, hbelow⟩
    cases mem_singleton.mp hmem
    cases (show segments "/a/../etc" = some [['a'], ['.', '.'], "etc".toList] by decide).symm.trans hsegs
    rw [← hp.lead ha] at hbelow
    revert hbelow
    decide

end Motebit.Policy
