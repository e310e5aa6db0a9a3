/-
  Motebit.PathPolicy.Members — A POLICY FILE READ STRICTLY: no member name twice in one object.

  Translated from `packages/verifier/src/repo-path-policy.ts`.

  Main results: `scan_value`, `repeatedMemberName_iff`, `path_policy`.
-/

import Motebit.Lib.JsMap
import Motebit.PathPolicy.Policy

namespace Motebit.PathPolicy

open Motebit.Lib Motebit.Lib.JsonText List

/-! ## §1. The scan -/

/-- An object or, without names, an array that is open. -/
structure Frame where
  names : Option (List Text)
  expectName : Bool

/-- Up to the quote that closes a string, and behind it; `none` where it runs off the text. -/
def closing : Text → Option (Text × Text)
  | [] => none
  | c :: rest =>
    if c.val = 34 then some ([], rest)
    else if c.val = 92 then
      match rest with
      | [] => none
      | d :: rest => (closing rest).map (Prod.map (fun literal => c :: d :: literal) id)
    else (closing rest).map (Prod.map (c :: ·) id)

variable {c : CodeUnit}

theorem closing_quote (h : c.val = 34) (rest : Text) : closing (c :: rest) = some ([], rest) := by
  rw [closing.eq_def]
  exact if_pos h

theorem closing_escape (h : c.val = 92) (d : CodeUnit) (rest : Text) : closing (c :: d :: rest) =
      (closing rest).map (Prod.map (fun literal => c :: d :: literal) id) := by
  rw [closing.eq_def]
  dsimp only
  rw [if_neg (by omega), if_pos h]

theorem closing_plain (h : c.val ≠ 34) (h' : c.val ≠ 92) (rest : Text) :
    closing (c :: rest) = (closing rest).map (Prod.map (c :: ·) id) := by
  rw [closing.eq_def]
  dsimp only
  rw [if_neg h, if_neg h']

theorem closing_length {text literal after : Text} (h : closing text = some (literal, after)) :
    after.length < text.length := by
  have htail : ∀ {f : Text → Text} {tail literal after : Text}, (∀ {literal after : Text},
      closing tail = some (literal, after) → after.length < tail.length) →
      (closing tail).map (Prod.map f id) = some (literal, after) → after.length < tail.length := by
    intro f tail literal after ih hmap
    obtain ⟨⟨literal', after'⟩, hclose, heq⟩ := Option.map_eq_some_iff.mp hmap
    cases heq
    exact ih hclose
  induction text using closing.induct generalizing literal after with
  | case1 => cases h
  | case2 c rest hquote =>
    rw [closing_quote hquote] at h
    cases h
    exact Nat.lt_succ_self _
  | case3 c hquote hback =>
    rw [closing.eq_def] at h
    simp [hback] at h
  | case4 c hquote hback d rest ih =>
    rw [closing_escape hback] at h
    exact Nat.lt_succ_of_lt (Nat.lt_succ_of_lt (htail ih h))
  | case5 c rest hquote hback ih =>
    rw [closing_plain hquote hback] at h
    exact Nat.lt_succ_of_lt (htail ih h)

/-- The names of an object that expects one more, and what is open around it. -/
def expecting : List Frame → Option (List Text × List Frame)
  | ⟨some names, true⟩ :: below => some (names, below)
  | _ => none

/-- `top.expectName = true`, in an object. -/
def expectName : List Frame → List Frame
  | ⟨some names, _⟩ :: below => ⟨some names, true⟩ :: below
  | stack => stack

/-- The loop of `repeatedMemberName`; `none` where it neither ends nor answers. -/
def scan (stack : List Frame) (text : Text) : Option (Option Text) :=
  match text with
  | [] => some none
  | c :: rest =>
    if c.val = 34 then
      match _h : closing rest with
      | none => none
      | some (literal, after) =>
        match expecting stack with
        | none => scan stack after
        | some (names, below) =>
          (parseString (literal ++ [34])).bind fun name =>
            if name.1 ∈ names then some (some name.1)
            else scan (⟨some (name.1 :: names), false⟩ :: below) after
    else if c.val = 123 then scan (⟨some [], true⟩ :: stack) rest
    else if c.val = 91 then scan (⟨none, false⟩ :: stack) rest
    else if c.val = 125 ∨ c.val = 93 then scan stack.tail rest
    else if c.val = 44 then scan (expectName stack) rest
    else scan stack rest
termination_by text.length
decreasing_by
  all_goals first
    | exact Nat.lt_succ_self _
    | exact Nat.lt_succ_of_lt (closing_length _h)

def repeatedMemberName (text : Text) : Option (Option Text) := scan [] text

mutual

/-- Some object repeats a member name. -/
def Repeats : Tree → Prop
  | .array items => ItemsRepeat items
  | .object members => ¬ (members.map Prod.fst).Nodup ∨ MembersRepeat members
  | _ => False

def ItemsRepeat : List Tree → Prop
  | [] => False
  | item :: rest => Repeats item ∨ ItemsRepeat rest

def MembersRepeat : List (Text × Tree) → Prop
  | [] => False
  | (_, value) :: rest => Repeats value ∨ MembersRepeat rest

end

/-! ## §2. Pieces of a text -/

/-- A character the scan passes over. -/
def Inert (c : CodeUnit) : Prop :=
  c.val ≠ 34 ∧ c.val ≠ 123 ∧ c.val ≠ 91 ∧ c.val ≠ 125 ∧ c.val ≠ 93 ∧ c.val ≠ 44

variable {stack : List Frame} {rest : Text} {c u : CodeUnit} {policy : RepoPathPolicy}

theorem scan_inert {front : Text} (h : ∀ c ∈ front, Inert c) :
    scan stack (front ++ rest) = scan stack rest := by
  induction front with
  | nil => rfl
  | cons c front ih =>
    obtain ⟨hquote, hbrace, hbracket, hclose, hclose', hcomma⟩ := h c mem_cons_self
    rw [cons_append, scan, if_neg hquote, if_neg hbrace, if_neg hbracket,
      if_neg (by simp [hclose, hclose']), if_neg hcomma]
    exact ih fun d hd => h d (mem_cons_of_mem _ hd)

def TakesInert {α : Type} (p : Text → Option (α × Text)) : Prop :=
  ∀ text x rest, p text = some (x, rest) → ∃ front, text = front ++ rest ∧ ∀ c ∈ front, Inert c

/-- Characters are passed over. -/
def Leaves (text rest : Text) : Prop := ∃ front, text = front ++ rest ∧ ∀ c ∈ front, Inert c

theorem Leaves.refl (text : Text) : Leaves text text := ⟨[], rfl, nofun⟩

theorem leaves_skip (text : Text) : Leaves text (skip text) := by
  refine ⟨_, (takeWhile_append_dropWhile).symm, fun c hc => ?_⟩
  have hspace := mem_takeWhile_imp hc
  rw [decide_eq_true_eq] at hspace
  unfold Inert
  omega

theorem scan_skip (stack : List Frame) (text : Text) : scan stack (skip text) = scan stack text := by
  obtain ⟨front, htext, hfront⟩ := leaves_skip text
  conv_rhs => rw [htext]
  exact (scan_inert hfront).symm

theorem inert_of_digit (h : isDigit c = true) : Inert c := by
  simp only [isDigit, Bool.and_eq_true, decide_eq_true_eq] at h
  unfold Inert
  omega

theorem takeDigits_inert (text : Text) : Leaves text (takeDigits text).2 :=
  ⟨_, (takeWhile_append_dropWhile).symm, fun _ hc => inert_of_digit (mem_takeWhile_imp hc)⟩

theorem parseDigits_inert : TakesInert parseDigits := by
  intro text x rest h
  unfold parseDigits at h
  split at h
  · cases h
  · cases h
    exact takeDigits_inert text

theorem Leaves.cons {text : Text} (hc : Inert c) (h : Leaves text rest) : Leaves (c :: text) rest := by
  obtain ⟨front, rfl, hfront⟩ := h
  exact ⟨c :: front, rfl, forall_mem_cons.mpr ⟨hc, hfront⟩⟩

theorem Leaves.trans {text mid : Text} (h : Leaves text mid) (h' : Leaves mid rest) :
    Leaves text rest := by
  obtain ⟨front, rfl, hfront⟩ := h
  obtain ⟨front', rfl, hfront'⟩ := h'
  exact ⟨front ++ front', by simp, forall_mem_append.mpr ⟨hfront, hfront'⟩⟩

theorem parseNumber_inert : TakesInert parseNumber := by
  have hunit : ∀ {c : CodeUnit}, c.val = 45 ∨ c.val = 43 ∨ c.val = 46 ∨ c.val = 101 ∨ c.val = 69 ∨
      c.val = 48 → Inert c := by
    intro c hc
    unfold Inert
    omega
  intro text x rest h
  obtain ⟨⟨whole, r⟩, hwhole, h⟩ := Option.bind_eq_some_iff.mp h
  obtain ⟨⟨fraction, r'⟩, hfraction, h⟩ := Option.bind_eq_some_iff.mp h
  obtain ⟨⟨exponent, r''⟩, hexponent, heq⟩ := Option.map_eq_some_iff.mp h
  obtain rfl : r'' = rest := congrArg Prod.snd heq
  have hsigned : Leaves text (parseSign text).2 := by
    cases text with
    | nil => exact .refl _
    | cons c =>
      rw [parseSign]
      split
      · next hc => exact .cons (hunit (.inl hc)) (.refl _)
      · exact .refl _
  suffices hall : Leaves (parseSign text).2 r ∧ Leaves r r' ∧ Leaves r' r'' from
    hsigned.trans (hall.1.trans (hall.2.1.trans hall.2.2))
  refine ⟨?_, ?_, ?_⟩
  · clear hsigned
    revert hwhole
    cases (parseSign text).2 with
    | nil => exact fun hwhole => by cases hwhole
    | cons c tail =>
      intro hwhole
      rw [parseWhole] at hwhole
      split at hwhole
      · next hc =>
        cases hwhole
        exact .cons (hunit (by omega)) (.refl _)
      split at hwhole
      · cases hwhole
        exact takeDigits_inert (c :: tail)
      · cases hwhole
  · cases r with
    | nil =>
      cases hfraction
      exact .refl _
    | cons =>
      rw [parseFraction] at hfraction
      split at hfraction
      · next hc => exact .cons (hunit (by omega)) (parseDigits_inert _ _ _ hfraction)
      · cases hfraction
        exact .refl _
  · have hdigits : ∀ {f : List Nat → Int} {tail : Text},
        (parseDigits tail).map (Prod.map f id) = some (exponent, r'') → Leaves tail r'' := by
      intro f tail hmap
      obtain ⟨⟨digits, after⟩, hparse, heq⟩ := Option.map_eq_some_iff.mp hmap
      cases heq
      exact parseDigits_inert _ _ _ hparse
    rw [parseExponent.eq_def] at hexponent
    dsimp only at hexponent
    split at hexponent
    · cases hexponent
      exact .refl _
    next c tail =>
    split at hexponent
    · next hc =>
      apply Leaves.cons (hunit (by omega))
      split at hexponent
      · cases hexponent
      next sign more =>
      split at hexponent
      · next hs => exact .cons (hunit (by omega)) (hdigits hexponent)
      split at hexponent
      · next hs => exact .cons (hunit (by omega)) (hdigits hexponent)
      · exact hdigits hexponent
    · cases hexponent
      exact .refl _

theorem parseWord_inert : TakesInert parseWord := by
  have hword : ∀ {word text : Text}, (∀ c ∈ word, Inert c) → word.isPrefixOf text = true →
      Leaves text (text.drop word.length) := by
    intro word text hinert hprefix
    obtain ⟨rest, rfl⟩ := isPrefixOf_iff_prefix.mp hprefix
    exact ⟨word, by rw [drop_left], hinert⟩
  intro text x rest h
  unfold parseWord at h
  iterate 3
    split at h
    · next hp =>
      cases h
      exact hword (by simp [Inert]) hp
  · cases h

theorem not_repeats_parseWord {text : Text} {tree : Tree} (h : parseWord text = some (tree, rest)) :
    ¬ Repeats tree := by
  unfold parseWord at h
  repeat' split at h
  all_goals cases h
  all_goals simp [Repeats]

/-- What stands for one character of a string. -/
structure Piece (front : Text) (x : CodeUnit) : Prop where
  parse : ∀ t, parseString (front ++ t) = (parseString t).map (Prod.map (x :: ·) id)
  close : ∀ t, closing (front ++ t) = (closing t).map (Prod.map (front ++ ·) id)

theorem ne_of_hexUnit {n : Nat} (h : JsonText.hexUnit c = some n) : c.val ≠ 34 ∧ c.val ≠ 92 := by
  unfold JsonText.hexUnit at h
  constructor
  · intro hc
    simp [hc] at h
  · intro hc
    simp [hc] at h

theorem piece_plain (hquote : u.val ≠ 34) (hback : u.val ≠ 92) (h : ¬ u.val < 32) :
    Piece [u] u where
  parse t := by
    rw [singleton_append, parseString.eq_def]
    dsimp only
    rw [if_neg hquote, if_neg hback, if_neg h]
  close t := closing_plain hquote hback t

theorem piece_escape {e x : CodeUnit} (hback : u.val = 92) (he : e.val ≠ 117)
    (hx : escape e = some x) : Piece [u, e] x where
  parse t := by
    show parseString (u :: e :: t) = _
    rw [parseString.eq_def]
    dsimp only
    rw [if_neg (by omega), if_pos hback, if_neg he, hx]
    rfl
  close t := closing_escape hback e t

theorem piece_hex {e a b d x : CodeUnit} (hback : u.val = 92) (he : e.val = 117)
    (hx : hexEscape a b c d = some x) : Piece [u, e, a, b, c, d] x where
  parse t := by
    show parseString (u :: e :: a :: b :: c :: d :: t) = _
    rw [parseString.eq_def]
    dsimp only
    rw [if_neg (by omega), if_pos hback, if_pos he, hx]
    rfl
  close t := by
    obtain ⟨a', ha, hx⟩ := Option.bind_eq_some_iff.mp hx
    obtain ⟨b', hb, hx⟩ := Option.bind_eq_some_iff.mp hx
    obtain ⟨c', hc, hx⟩ := Option.bind_eq_some_iff.mp hx
    obtain ⟨d', hd, -⟩ := Option.map_eq_some_iff.mp hx
    show closing (u :: e :: a :: b :: c :: d :: t) = _
    rw [closing_escape hback, closing_plain (ne_of_hexUnit ha).1 (ne_of_hexUnit ha).2,
      closing_plain (ne_of_hexUnit hb).1 (ne_of_hexUnit hb).2,
      closing_plain (ne_of_hexUnit hc).1 (ne_of_hexUnit hc).2,
      closing_plain (ne_of_hexUnit hd).1 (ne_of_hexUnit hd).2]
    cases closing t <;> rfl

theorem closing_of_parseString {text s : Text} (h : parseString text = some (s, rest)) :
    ∃ literal, closing text = some (literal, rest) ∧
      parseString (literal ++ [34]) = some (s, []) := by
  have hpiece : ∀ {front tail s rest : Text} {x : CodeUnit}, Piece front x →
      (∀ {s rest : Text}, parseString tail = some (s, rest) → ∃ literal,
        closing tail = some (literal, rest) ∧ parseString (literal ++ [34]) = some (s, [])) →
      parseString (front ++ tail) = some (s, rest) → ∃ literal,
        closing (front ++ tail) = some (literal, rest) ∧
        parseString (literal ++ [34]) = some (s, []) := by
    intro front tail s rest x hp ih h
    rw [hp.parse] at h
    obtain ⟨⟨s', rest'⟩, htail, heq⟩ := Option.map_eq_some_iff.mp h
    cases heq
    obtain ⟨literal, hclose, hparse⟩ := ih htail
    refine ⟨front ++ literal, by rw [hp.close, hclose]; rfl, ?_⟩
    rw [append_assoc, hp.parse, hparse]
    rfl
  induction text using parseString.induct generalizing s rest with
  | case1 => cases h
  | case2 u tail hquote =>
    rw [parseString.eq_def] at h
    dsimp only at h
    rw [if_pos hquote] at h
    cases h
    exact ⟨[], closing_quote hquote _, by decide⟩
  | case3 u hquote hback =>
    rw [parseString.eq_def] at h
    simp [hback] at h
  | case4 u hquote hback e he a b c d tail ih =>
    have hstep := h
    rw [parseString.eq_def] at hstep
    dsimp only at hstep
    rw [if_neg hquote, if_pos hback, if_pos he] at hstep
    obtain ⟨x, hx, -⟩ := Option.bind_eq_some_iff.mp hstep
    exact hpiece (piece_hex hback he hx) ih h
  | case5 u hquote hback e tail he hshort =>
    rw [parseString.eq_def] at h
    dsimp only at h
    rw [if_neg hquote, if_pos hback, if_pos he] at h
    split at h
    · next a b c d rest => exact absurd rfl (hshort a b c d rest)
    · cases h
  | case6 u hquote hback e tail he ih =>
    have hstep := h
    rw [parseString.eq_def] at hstep
    dsimp only at hstep
    rw [if_neg hquote, if_pos hback, if_neg he] at hstep
    obtain ⟨x, hx, -⟩ := Option.bind_eq_some_iff.mp hstep
    exact hpiece (piece_escape hback he hx) ih h
  | case7 u tail hquote hback hcontrol =>
    rw [parseString.eq_def] at h
    dsimp only at h
    rw [if_neg hquote, if_neg hback, if_pos hcontrol] at h
    cases h
  | case8 u tail hquote hback hcontrol ih => exact hpiece (piece_plain hquote hback hcontrol) ih h

/-! ## §3. The scan over a text -/

/-- The scan of a value: a name that is repeated, or on behind it. -/
def Scanned (repeats : Prop) (stack : List Frame) (text : Text) (stack' : List Frame)
    (rest : Text) : Prop :=
  (repeats → ∃ name, scan stack text = some (some name)) ∧
    (¬ repeats → scan stack text = scan stack' rest)

theorem scan_string {text s : Text} (hu : u.val = 34) (h : parseString text = some (s, rest)) :
    scan stack (u :: text) =
      match expecting stack with
      | none => scan stack rest
      | some (names, below) => if s ∈ names then some (some s)
        else scan (⟨some (s :: names), false⟩ :: below) rest := by
  obtain ⟨literal, hclose, hparse⟩ := closing_of_parseString h
  rw [scan, if_pos hu]
  split
  · next hnone =>
    rw [hclose] at hnone
    cases hnone
  · next literal' after heq =>
    rw [hclose] at heq
    cases heq
    rw [hparse]
    rfl

def ScansAs (value : Text → Option (Tree × Text)) : Prop :=
  ∀ text tree rest, value text = some (tree, rest) → ∀ stack, expecting stack = none →
    Scanned (Repeats tree) stack text stack rest

theorem scan_close (hu : u.val = 125 ∨ u.val = 93) (rest : Text) :
    scan stack (u :: rest) = scan stack.tail rest := by
  rw [scan, if_neg (by omega), if_neg (by omega), if_neg (by omega), if_pos hu]

theorem scan_comma (hu : u.val = 44) (rest : Text) :
    scan stack (u :: rest) = scan (expectName stack) rest := by
  rw [scan, if_neg (by omega), if_neg (by omega), if_neg (by omega), if_neg (by omega), if_pos hu]

theorem Scanned.or {p q : Prop} {text mid : Text} {stack' stack'' : List Frame}
    (h : Scanned p stack text stack' mid) (h' : Scanned q stack' mid stack'' rest) :
    Scanned (p ∨ q) stack text stack'' rest := by
  refine ⟨fun hor => ?_, fun hnot => ?_⟩
  · by_cases hp : p
    · exact h.1 hp
    · rw [h.2 hp]
      exact h'.1 (hor.resolve_left hp)
  · obtain ⟨hp, hq⟩ := not_or.mp hnot
    rw [h.2 hp]
    exact h'.2 hq

/-- **The scan over the elements of a bracket**: `opened` stands before an element, `closed`
    behind it. -/
theorem scan_elements {α σ : Type} {value : Text → Option (α × Text)} {close : Nat}
    (hend : close = 125 ∨ close = 93) (opened closed : σ → List Frame) (next : σ → α → σ)
    (first : σ → α → Prop) (repeats : σ → List α → Prop)
    (htail : ∀ st, (closed st).tail = stack) (hopened : ∀ st, expectName (closed st) = opened st)
    (hnil : ∀ st, ¬ repeats st [])
    (hcons : ∀ st x xs, repeats st (x :: xs) ↔ first st x ∨ repeats (next st x) xs)
    (hvalue : ∀ st text x rest, value text = some (x, rest) →
      Scanned (first st x) (opened st) text (closed (next st x)) rest)
    {fuel : Nat} {text : Text} {xs : List α} (st : σ)
    (h : parseElements value close fuel text = some (xs, rest)) :
    Scanned (repeats st xs) (opened st) text stack rest := by
  induction fuel generalizing text xs st with
  | zero => cases h
  | succ fuel ih =>
    rw [parseElements] at h
    split at h
    · cases h
    next x after hx =>
    split at h
    · cases h
    next u more hskip =>
    have hbehind : ∀ stack, scan stack after = scan stack (u :: more) := by
      intro stack
      rw [← hskip, scan_skip]
    split at h
    · next hclose =>
      cases h
      rw [hcons]
      refine (hvalue st _ _ _ hx).or ⟨fun hrepeats => absurd hrepeats (hnil _), fun _ => ?_⟩
      rw [hbehind, scan_close (by omega), htail]
    split at h
    · next hcomma =>
      obtain ⟨⟨xs', rest'⟩, hrest, heq⟩ := Option.map_eq_some_iff.mp h
      cases heq
      rw [hcons]
      refine (hvalue st _ _ _ hx).or ?_
      unfold Scanned
      rw [hbehind, scan_comma hcomma, hopened]
      exact ih (next st x) hrest
    · cases h

theorem scan_items {value : Text → Option (Tree × Text)} (hvalue : ScansAs value) {fuel : Nat}
    {text : Text} {items : List Tree} (h : parseElements value 93 fuel text = some (items, rest))
    (stack : List Frame) :
    Scanned (ItemsRepeat items) (⟨none, false⟩ :: stack) text stack rest :=
  scan_elements (.inr rfl) (fun _ : Unit => ⟨none, false⟩ :: stack) _ (fun _ _ => ()) _
    (fun _ => ItemsRepeat) (fun _ => rfl) (fun _ => rfl) (fun _ => id) (fun _ _ _ => Iff.rfl)
    (fun _ _ _ _ hitem => hvalue _ _ _ hitem _ rfl) () h

/-- Members behind names: one of them is among the names or repeats one, or a value does. -/
def NamesRepeat (names : List Text) (members : List (Text × Tree)) : Prop :=
  ¬ ((members.map Prod.fst).Nodup ∧ ∀ m ∈ members, m.1 ∉ names) ∨ MembersRepeat members

theorem scan_members {value : Text → Option (Tree × Text)} (hvalue : ScansAs value) {fuel : Nat}
    {text : Text} {members : List (Text × Tree)}
    (h : parseElements (parseMember value) 125 fuel text = some (members, rest)) (names : List Text)
    (stack : List Frame) :
    Scanned (NamesRepeat names members) (⟨some names, true⟩ :: stack) text stack rest := by
  refine scan_elements (.inl rfl) (fun names => ⟨some names, true⟩ :: stack)
    (fun names => ⟨some names, false⟩ :: stack) (fun names member => member.1 :: names)
    (fun names member => member.1 ∈ names ∨ Repeats member.2) NamesRepeat
    (fun _ => rfl) (fun _ => rfl) ?_ ?_ ?_ names h
  · simp [NamesRepeat, MembersRepeat]
  · intro names member members
    unfold NamesRepeat
    rw [map_cons, nodup_cons, MembersRepeat, forall_mem_cons]
    grind
  · -- the name, the colon and the value
    intro names text member after hmember
    unfold parseMember at hmember
    split at hmember
    · cases hmember
    next u behind hskip =>
    split at hmember
    · next hquote =>
      obtain ⟨⟨name, r⟩, hname, hmember⟩ := Option.bind_eq_some_iff.mp hmember
      split at hmember
      · cases hmember
      next colon behind' hskip' =>
      split at hmember
      · next hcolon =>
        obtain ⟨⟨tree, r'⟩, htree, heq⟩ := Option.map_eq_some_iff.mp hmember
        cases heq
        have hinert : ∀ c ∈ [colon], Inert c := by
          intro c hc
          rw [mem_singleton.mp hc]
          unfold Inert
          omega
        have hpast : ∀ stack, scan stack r = scan stack behind' := by
          intro stack
          rw [← scan_skip, hskip']
          exact scan_inert hinert
        have hscan : scan (⟨some names, true⟩ :: stack) text = if name ∈ names then some (some name)
            else scan (⟨some (name :: names), false⟩ :: stack) behind' := by
          rw [← hpast, ← scan_skip, hskip, scan_string hquote hname]
          rfl
        refine .or ⟨fun hin => ?_, fun hin => ?_⟩ (hvalue _ _ _ htree _ rfl)
        · rw [hscan, if_pos hin]
          exact ⟨name, rfl⟩
        · rw [hscan, if_neg hin]
      · cases hmember
    · cases hmember

/-- **The scan over a value.** -/
theorem scan_value (fuel : Nat) : ScansAs (parseValue fuel) := by
  induction fuel with
  | zero =>
    nofun
  | succ fuel ih =>
    intro text tree rest h stack hstack
    rw [parseValue] at h
    split at h
    · cases h
    next u behind hskip =>
    have hscan : scan stack text = scan stack (u :: behind) := by rw [← hskip, scan_skip]
    unfold Scanned
    rw [hscan]
    split at h
    · next hquote =>
      obtain ⟨⟨s, r⟩, hs, heq⟩ := Option.map_eq_some_iff.mp h
      cases heq
      rw [scan_string hquote hs, hstack]
      exact ⟨fun hrepeats => hrepeats.elim, fun _ => rfl⟩
    next hquote =>
    split at h
    · next hopen =>
      obtain ⟨⟨items, r⟩, hitems, heq⟩ := Option.map_eq_some_iff.mp h
      cases heq
      rw [scan, if_neg hquote, if_neg (by omega), if_pos hopen]
      unfold parseBracketed at hitems
      split at hitems
      · cases hitems
      next v more hskip' =>
      split at hitems
      · next hclose =>
        cases hitems
        rw [← scan_skip, hskip', scan_close (.inr hclose)]
        exact ⟨fun hrepeats => hrepeats.elim, fun _ => rfl⟩
      · exact scan_items ih hitems stack
    next hbracket =>
    split at h
    · next hopen =>
      obtain ⟨⟨members, r⟩, hmembers, heq⟩ := Option.map_eq_some_iff.mp h
      cases heq
      rw [scan, if_neg hquote, if_pos hopen]
      unfold parseBracketed at hmembers
      split at hmembers
      · cases hmembers
      next v more hskip' =>
      split at hmembers
      · next hclose =>
        cases hmembers
        rw [← scan_skip, hskip', scan_close (.inl hclose)]
        refine ⟨fun hrepeats => ?_, fun _ => rfl⟩
        simp [Repeats, MembersRepeat] at hrepeats
      · have hmem := scan_members ih hmembers [] stack
        have hiff : NamesRepeat [] members ↔ Repeats (.object members) := by
          simp [NamesRepeat, Repeats]
        rwa [hiff] at hmem
    next hbrace =>
    split at h
    · obtain ⟨⟨n, r⟩, hn, heq⟩ := Option.map_eq_some_iff.mp h
      cases heq
      obtain ⟨front, hfront, hinert⟩ := parseNumber_inert _ _ _ hn
      rw [hfront, scan_inert hinert]
      exact ⟨fun hrepeats => hrepeats.elim, fun _ => rfl⟩
    · obtain ⟨front, hfront, hinert⟩ := parseWord_inert _ _ _ h
      rw [hfront, scan_inert hinert]
      exact ⟨fun hrepeats => absurd hrepeats (not_repeats_parseWord h), fun _ => rfl⟩

/-- **A name is found exactly where an object repeats one.** -/
theorem repeatedMemberName_iff {text : Text} {tree : Tree} (h : JsonText.parse text = some tree) :
    ∃ found, repeatedMemberName text = some found ∧ (found.isSome = true ↔ Repeats tree) := by
  unfold JsonText.parse at h
  split at h
  · cases h
  next tree' rest hvalue =>
  split at h
  · next hrest =>
    cases h
    obtain ⟨hfound, hon⟩ := scan_value _ _ _ _ hvalue [] rfl
    by_cases hrepeats : Repeats tree
    · obtain ⟨name, hname⟩ := hfound hrepeats
      exact ⟨some name, hname, by simp [hrepeats]⟩
    · refine ⟨none, ?_, by simp [hrepeats]⟩
      unfold repeatedMemberName
      rw [hon hrepeats, ← scan_skip, hrest]
      rw [scan]
  · cases h

/-! ## §4. The policy file -/

def POLICY_KEYS : List Text := [text "spec", text "include", text "exclude"]

def compilePolicy : Tree → Except Refusal Compiled
  | .object members =>
    match POLICY_KEYS.find? fun k => decide (k ∉ ownKeys members) with
    | some k => .error (.missingKey k)
    | none =>
      match (ownKeys members).find? fun k => decide (k ∉ POLICY_KEYS) with
      | some k => .error (.unknownKey k)
      | none =>
        match lastMember members (text "spec") with
        | some (.string spec) =>
          if spec ≠ REPO_PATH_POLICY_SPEC then .error .otherSpec
          else
            (compileList (text "include") (lastMember members (text "include"))).bind fun inc =>
              (compileList (text "exclude") (lastMember members (text "exclude"))).map fun exc =>
                ⟨inc, exc⟩
        | _ => .error .otherSpec
  | _ => .error .notObject

def stringsOf : Option Tree → List Text
  | some (.array items) => items.filterMap fun item =>
    match item with
    | .string s => some s
    | _ => none
  | _ => []

/-- The lists of the value that was parsed. -/
def policyOf : Tree → RepoPathPolicy
  | .object members =>
    ⟨stringsOf (lastMember members (text "include")), stringsOf (lastMember members (text "exclude"))⟩
  | _ => ⟨[], []⟩

def parseRepoPathPolicy (text : Text) : Except Refusal RepoPathPolicy :=
  match JsonText.parse text with
  | none => .error .notJson
  | some value =>
    match repeatedMemberName text with
    | none => .error .unfinished
    | some (some name) => .error (.repeatedName name)
    | some none => (compilePolicy value).map fun _ => policyOf value

def RepoPathPolicy.members (policy : RepoPathPolicy) : List (Text × Tree) :=
  [(text "spec", .string REPO_PATH_POLICY_SPEC), (text "include", strings policy.include_),
    (text "exclude", strings policy.exclude)]

theorem keys_members (policy : RepoPathPolicy) : policy.members.map Prod.fst = POLICY_KEYS := rfl

theorem policyKeys_nodup : POLICY_KEYS.Nodup := by decide

theorem stringsOf_strings (patterns : List Text) : stringsOf (some (strings patterns)) = patterns := by
  unfold stringsOf strings
  dsimp only
  rw [filterMap_map]
  exact filterMap_some

theorem lastMember_iff {members : List (Text × Tree)} (h : (members.map Prod.fst).Nodup)
    {name : Text} {value : Tree} :
    lastMember members name = some value ↔ (name, value) ∈ members := by
  have hkeys : (JsMap.keys members.reverse).Nodup := by
    rw [JsMap.keys, map_reverse]
    exact nodup_reverse.mpr h
  have hfound := @JsMap.get_eq_some _ _ _ _ hkeys name value
  have hget : lastMember members name = JsMap.get members.reverse name := by
    unfold lastMember JsMap.get
    congr 2
    funext m
    exact Bool.eq_iff_iff.mpr (by simp only [beq_iff_eq])
  rw [hget, hfound, mem_reverse]

theorem compilePolicy_iff {members : List (Text × Tree)} (h : (members.map Prod.fst).Nodup)
    {compiled : Compiled} : compilePolicy (.object members) = .ok compiled ↔
      ∃ policy : RepoPathPolicy, members.Perm policy.members ∧ policy.Documented ∧
        compiled = ⟨policy.include_.map segmentsOf, policy.exclude.map segmentsOf⟩ := by
  have hown : ∀ k, k ∈ ownKeys members ↔ k ∈ members.map Prod.fst := fun k => mem_dedup
  rw [compilePolicy]
  constructor
  · intro hc
    split at hc
    · cases hc
    next hpresent =>
    split at hc
    · cases hc
    next hknown =>
    split at hc
    swap
    · cases hc
    next spec hspec =>
    split at hc
    · cases hc
    next hspec' =>
    rw [not_not] at hspec'
    rw [Throws.bind_eq_ok] at hc
    obtain ⟨inc, hlist, hc⟩ := hc
    obtain ⟨exc, hlist', rfl⟩ := Throws.map_eq_ok.mp hc
    obtain ⟨patterns, hinc, rfl, hdocumented⟩ := compileList_iff.mp hlist
    obtain ⟨patterns', hexc, rfl, hdocumented'⟩ := compileList_iff.mp hlist'
    refine ⟨⟨patterns, patterns'⟩, ?_, ⟨hdocumented, hdocumented'⟩, rfl⟩
    rw [hspec', lastMember_iff h] at hspec
    rw [lastMember_iff h] at hinc hexc
    rw [find?_eq_none] at hknown
    have hsub : RepoPathPolicy.members ⟨patterns, patterns'⟩ ⊆ members := by
      intro m hm
      rcases mem_cons.mp hm with rfl | hm
      · exact hspec
      rcases mem_cons.mp hm with rfl | hm
      · exact hinc
      · rw [mem_singleton.mp hm]
        exact hexc
    have hnodup' : (RepoPathPolicy.members ⟨patterns, patterns'⟩).Nodup :=
      List.Nodup.of_map Prod.fst policyKeys_nodup
    refine ((perm_ext_iff_of_nodup (List.Nodup.of_map Prod.fst h) hnodup').mpr ?_)
    intro m
    constructor
    · intro hm
      have hkey : m.1 ∈ POLICY_KEYS := by
        have hmem := hknown m.1 ((hown m.1).mpr (mem_map_of_mem hm))
        simpa using hmem
      rw [← keys_members ⟨patterns, patterns'⟩] at hkey
      obtain ⟨m', hm', hname⟩ := mem_map.mp hkey
      rwa [← inj_on_of_nodup_map h (hsub hm') hm hname]
    · exact fun hm => hsub hm
  · rintro ⟨policy, hperm, ⟨hinc, hexc⟩, rfl⟩
    have hkeys : ∀ k, k ∈ ownKeys members ↔ k ∈ POLICY_KEYS := by
      intro k
      rw [hown, ← keys_members policy]
      exact (hperm.map Prod.fst).mem_iff
    have hpresent : (POLICY_KEYS.find? fun k => decide (k ∉ ownKeys members)) = none := by
      rw [find?_eq_none]
      intro k hk
      simp [(hkeys k).mpr hk]
    have hknown : ((ownKeys members).find? fun k => decide (k ∉ POLICY_KEYS)) = none := by
      rw [find?_eq_none]
      intro k hk
      simp [(hkeys k).mp hk]
    have hlast : ∀ {name : Text} {value : Tree}, (name, value) ∈ policy.members →
        lastMember members name = some value := fun hmem =>
      (lastMember_iff h).mpr (hperm.mem_iff.mpr hmem)
    rw [hpresent]
    rw [hknown]
    rw [@hlast _ (.string REPO_PATH_POLICY_SPEC) (by simp [RepoPathPolicy.members])]
    dsimp only
    rw [if_neg (not_not.mpr rfl), Throws.bind_eq_ok]
    refine ⟨_, compileList_iff.mpr ⟨policy.include_, hlast ?_, rfl, hinc⟩,
      Throws.map_eq_ok.mpr ⟨_, compileList_iff.mpr ⟨policy.exclude, hlast ?_, rfl, hexc⟩, rfl⟩⟩
    · simp [RepoPathPolicy.members]
    · simp [RepoPathPolicy.members]

theorem not_itemsRepeat (patterns : List Text) : ¬ ItemsRepeat (patterns.map .string) := by
  induction patterns with
  | nil => exact id
  | cons p patterns ih => exact fun h => h.elim (fun hrepeats => hrepeats) ih

theorem policyOf_perm {members : List (Text × Tree)} (h : (members.map Prod.fst).Nodup)
    (hperm : members.Perm policy.members) : policyOf (.object members) = policy := by
  have hinc := (@lastMember_iff _ h (text "include") (strings policy.include_)).mpr
    (hperm.mem_iff.mpr (by simp [RepoPathPolicy.members]))
  have hexc := (@lastMember_iff _ h (text "exclude") (strings policy.exclude)).mpr
    (hperm.mem_iff.mpr (by simp [RepoPathPolicy.members]))
  rw [policyOf, hinc, hexc, stringsOf_strings, stringsOf_strings]

/-- **A file is accepted exactly when it is one object of the three members, in the grammar.** -/
theorem parseRepoPathPolicy_iff {text : Text} :
    parseRepoPathPolicy text = .ok policy ↔ policy.Documented ∧
      ∃ members, JsonText.parse text = some (.object members) ∧ members.Perm policy.members := by
  constructor
  · intro h
    unfold parseRepoPathPolicy at h
    split at h
    · cases h
    next value hvalue =>
    obtain ⟨found, hfound, hiff⟩ := repeatedMemberName_iff hvalue
    rw [hfound] at h
    cases found with
    | some => cases h
    | none =>
      obtain ⟨compiled, hcompiled, rfl⟩ := Throws.map_eq_ok.mp h
      cases value with
      | object members =>
        have hnodup : (members.map Prod.fst).Nodup := by
          by_contra hrepeated
          exact absurd (hiff.mpr (.inl hrepeated)) (by decide)
        obtain ⟨policy, hperm, hdocumented, -⟩ := (compilePolicy_iff hnodup).mp hcompiled
        rw [policyOf_perm hnodup hperm]
        exact ⟨hdocumented, members, hvalue, hperm⟩
      | _ => cases hcompiled
  · rintro ⟨hdocumented, members, hvalue, hperm⟩
    have hnodup : (members.map Prod.fst).Nodup := by
      rw [(hperm.map Prod.fst).nodup_iff]
      exact policyKeys_nodup
    have hmembers : ¬ Repeats (.object members) := by
      have hall : ∀ ms : List (Text × Tree), (∀ m ∈ ms, ¬ Repeats m.2) → ¬ MembersRepeat ms := by
        intro ms hms
        induction ms with
        | nil => exact id
        | cons m ms ih =>
          obtain ⟨hm, hms⟩ := forall_mem_cons.mp hms
          exact fun h => h.elim hm (ih hms)
      refine not_or.mpr ⟨not_not.mpr hnodup, hall members fun m hm => ?_⟩
      have hmem := hperm.mem_iff.mp hm
      rcases mem_cons.mp hmem with rfl | hmem
      · exact id
      rcases mem_cons.mp hmem with rfl | hmem
      · exact not_itemsRepeat _
      · rw [mem_singleton.mp hmem]
        exact not_itemsRepeat _
    obtain ⟨found, hfound, hiff⟩ := repeatedMemberName_iff hvalue
    have hnone : found = none := by
      rw [← Option.not_isSome_iff_eq_none, hiff]
      exact hmembers
    unfold parseRepoPathPolicy
    rw [hvalue]
    rw [hfound, hnone]
    exact Throws.map_eq_ok.mpr ⟨_, (compilePolicy_iff hnodup).mpr ⟨policy, hperm, hdocumented, rfl⟩,
      policyOf_perm hnodup hperm⟩

/-! ## §5. All of it -/

theorem foldUnit_foldUnit (u : CodeUnit) : foldUnit (foldUnit u) = foldUnit u := by
  unfold foldUnit
  split
  · next hletter =>
    have hval : (Fin.ofNat 65536 (u.val + 32)).val = u.val + 32 := Nat.mod_eq_of_lt (by omega)
    rw [if_neg (by omega)]
  · rfl

theorem foldUnit_eq (hc : c.val < 65) (u : CodeUnit) : foldUnit u = c ↔ u = c := by
  unfold foldUnit
  split
  · next hletter =>
    have hval : (Fin.ofNat 65536 (u.val + 32)).val = u.val + 32 := Nat.mod_eq_of_lt (by omega)
    constructor
    · intro h
      rw [h] at hval
      omega
    · rintro rfl
      omega
  · exact Iff.rfl

theorem splitOn_foldAscii (s : Text) :
    (foldAscii s).splitOn SLASH = (s.splitOn SLASH).map foldAscii := by
  unfold foldAscii
  induction s with
  | nil => rfl
  | cons u s ih =>
    rw [map_cons, splitOn_cons_eq_if_modifyHead, splitOn_cons_eq_if_modifyHead, ih]
    have hu := foldUnit_eq (c := SLASH) (by decide) u
    by_cases heq : u = SLASH
    · rw [if_pos (beq_iff_eq.mpr (hu.mpr heq)), if_pos (by simp [heq])]
      rfl
    · rw [if_neg (fun h => heq (hu.mp (eq_of_beq h))), if_neg (by simp [heq])]
      cases s.splitOn SLASH <;> rfl

def Segment.folded : Segment → Segment
  | .globstar => .globstar
  | .glob part => .glob (foldAscii part)

theorem segmentsOf_foldAscii (pattern : Text) :
    segmentsOf (foldAscii pattern) = (segmentsOf pattern).map Segment.folded := by
  have hsegment : ∀ seg, segmentOf (foldAscii seg) = (segmentOf seg).folded := by
    intro seg
    have hstar : foldAscii seg = globstarText ↔ seg = globstarText := by
      have hback : globstarText = foldAscii globstarText := by decide
      constructor
      · intro h
        obtain ⟨a, rest, rfl, ha, hrest⟩ := map_eq_cons_iff.mp h
        obtain ⟨b, rest, rfl, hb, hrest⟩ := map_eq_cons_iff.mp hrest
        rw [map_eq_nil_iff.mp hrest, (foldUnit_star a).mp ha, (foldUnit_star b).mp hb]
        rfl
      · rintro rfl
        exact hback.symm
    unfold segmentOf
    by_cases heq : seg = globstarText
    · rw [if_pos (hstar.mpr heq), if_pos heq]
      rfl
    · rw [if_neg (fun h => heq (hstar.mp h)), if_neg heq]
      rfl
  unfold segmentsOf
  rw [splitOn_foldAscii, map_map, map_map]
  exact map_congr_left fun seg _ => hsegment seg

theorem matchFrom_folded (pat : List Segment) (segs : List Text) :
    matchFrom true (pat.map Segment.folded) segs = matchFrom true pat segs := by
  have hglob : ∀ glob seg, globMatch (foldAscii glob) seg true = globMatch glob seg true := by
    intro glob seg
    have hfold : foldAscii (foldAscii glob) = foldAscii glob := by
      unfold foldAscii
      rw [map_map]
      exact map_congr_left fun u _ => foldUnit_foldUnit u
    simp only [globMatch, cased, if_true, hfold]
  induction pat generalizing segs with
  | nil => rfl
  | cons s pat ih =>
    cases s with
    | globstar =>
      show matchFrom true (.globstar :: pat.map Segment.folded) segs = _
      rw [matchFrom, matchFrom, funext ih]
      by_cases hpat : pat = []
      · rw [if_pos hpat, if_pos (map_eq_nil_iff.mpr hpat)]
      · rw [if_neg hpat, if_neg (fun h => hpat (map_eq_nil_iff.mp h))]
    | glob glob =>
      show matchFrom true (.glob (foldAscii glob) :: pat.map Segment.folded) segs = _
      cases segs with
      | nil => rfl
      | cons => rw [matchFrom, matchFrom, hglob, ih]

theorem pathReads_foldAscii (pattern path : Text) :
    PathReads true (foldAscii pattern) path ↔ PathReads true pattern path := by
  unfold PathReads
  rw [← matchFrom_iff, ← matchFrom_iff, segmentsOf_foldAscii, matchFrom_folded]

theorem Permitted.of_exclude {more : RepoPathPolicy} {path : Text}
    (hinc : policy.include_ = more.include_)
    (hexc : ∀ p ∈ policy.exclude, ∃ q ∈ more.exclude, foldAscii p = foldAscii q)
    (h : Permitted more path) : Permitted policy path := by
  have hread : ∀ {p : Text}, p ∈ policy.exclude → ∀ {path : Text}, PathReads true p path →
      ∃ q ∈ more.exclude, PathReads true q path := by
    intro p hp path hpath
    obtain ⟨q, hq, heq⟩ := hexc p hp
    rw [← pathReads_foldAscii, heq, pathReads_foldAscii] at hpath
    exact ⟨q, hq, hpath⟩
  refine ⟨h.one_line, by rw [hinc]; exact h.included, ?_, ?_⟩
  · intro p hp hpath
    obtain ⟨q, hq, hpath⟩ := hread hp hpath
    exact h.not_excluded q hq hpath
  · intro p hp front rest hsplit hne hpath
    obtain ⟨q, hq, hpath⟩ := hread hp hpath
    exact h.not_beneath q hq front rest hsplit hne hpath

/-- **The interpreter implements its grammar and its reading**; so the case of an exclude does not
matter, and one more only removes paths. -/
theorem path_policy :
    (∀ text policy, parseRepoPathPolicy text = .ok policy ↔ policy.Documented ∧
      ∃ members, JsonText.parse text = some (.object members) ∧ members.Perm policy.members) ∧
    (∀ text tree, JsonText.parse text = some tree → ∃ found,
      repeatedMemberName text = some found ∧ (found.isSome = true ↔ Repeats tree)) ∧
    (∀ policy path, policy.Documented → ∃ permitted,
      isRepoPathPermitted policy path = .ok permitted ∧
        (permitted = true ↔ Permitted policy path)) ∧
    (∀ policy policy' path, policy.Documented → policy'.Documented →
      policy.include_ = policy'.include_ →
      policy.exclude.map foldAscii = policy'.exclude.map foldAscii →
        isRepoPathPermitted policy path = isRepoPathPermitted policy' path) ∧
    ∀ policy more path, policy.Documented → more.Documented → policy.include_ = more.include_ →
      policy.exclude ⊆ more.exclude → isRepoPathPermitted more path = .ok true →
        isRepoPathPermitted policy path = .ok true := by
  refine ⟨fun _ _ => parseRepoPathPolicy_iff, fun _ _ => repeatedMemberName_iff,
    fun _ path h => isRepoPathPermitted_iff h path, ?_, ?_⟩
  · intro policy policy' path h h' hinc hexc
    have hsome : ∀ {a b : RepoPathPolicy}, a.exclude.map foldAscii = b.exclude.map foldAscii →
        ∀ p ∈ a.exclude, ∃ q ∈ b.exclude, foldAscii p = foldAscii q := by
      intro a b heq p hp
      have hmem : foldAscii p ∈ b.exclude.map foldAscii := by
        rw [← heq]
        exact mem_map_of_mem hp
      obtain ⟨q, hq, hqp⟩ := mem_map.mp hmem
      exact ⟨q, hq, hqp.symm⟩
    obtain ⟨b, hb, hiff⟩ := isRepoPathPermitted_iff h path
    obtain ⟨b', hb', hiff'⟩ := isRepoPathPermitted_iff h' path
    have hsame : b = true ↔ b' = true := by
      rw [hiff, hiff']
      exact ⟨.of_exclude hinc.symm (hsome hexc.symm), .of_exclude hinc (hsome hexc)⟩
    rw [hb, hb', Bool.eq_iff_iff.mpr hsame]
  · intro policy more path h hmore hinc hexc htrue
    obtain ⟨b, hb, hiff⟩ := isRepoPathPermitted_iff h path
    obtain ⟨b', hb', hiff'⟩ := isRepoPathPermitted_iff hmore path
    rw [hb'] at htrue
    have hpermitted := hiff'.mp (Except.ok.inj htrue)
    rw [hb, hiff.mpr (.of_exclude hinc (fun p hp => ⟨p, hexc hp, rfl⟩) hpermitted)]

end Motebit.PathPolicy
