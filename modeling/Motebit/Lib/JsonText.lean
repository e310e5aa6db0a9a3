/-
  Motebit.Lib.JsonText — WHAT A JSON TEXT SAYS, before repeated members are merged.

  The reader takes every text of the grammar: white space, escapes, every form of a number.
  It keeps all members of an object in their order; `JSON.parse` keeps the last one of a name.

  Main results: `parseString_plain`, `parseNumber_natText`.
-/

import Motebit.Lib.Double
import Motebit.Lib.Json
import Motebit.Lib.Radix

namespace Motebit.Lib.JsonText

open List

/-! ## §1. Trees -/

/-- A number as it is written; digits are values below ten. -/
structure NumberLiteral where
  negative : Bool
  whole : List Nat
  fraction : List Nat
  exponent : Int
  deriving DecidableEq

/-- The integer digits stand for. -/
def digitsValue (digits : List Nat) : Nat := Radix.value 10 digits

def NumberLiteral.exact (n : NumberLiteral) : ℚ :=
  (if n.negative then -1 else 1) * digitsValue (n.whole ++ n.fraction) *
    10 ^ (n.exponent - n.fraction.length)

def NumberLiteral.value (n : NumberLiteral) : ℚ := Double.nearest n.exact

/-- A value of the grammar; an object lists every member, repeated or not. -/
inductive Tree
  | null
  | bool (b : Bool)
  | number (n : NumberLiteral)
  | string (s : Text)
  | array (items : List Tree)
  | object (members : List (Text × Tree))

mutual

/-- The string values of a tree, at every depth. -/
def Tree.texts : Tree → List Text
  | .string s => [s]
  | .array items => textsOfItems items
  | .object members => textsOfMembers members
  | _ => []

def textsOfItems : List Tree → List Text
  | [] => []
  | item :: rest => item.texts ++ textsOfItems rest

def textsOfMembers : List (Text × Tree) → List Text
  | [] => []
  | (_, value) :: rest => value.texts ++ textsOfMembers rest

end

mutual

/-- The member names of a tree, at every depth. -/
def Tree.names : Tree → List Text
  | .array items => namesOfItems items
  | .object members => namesOfMembers members
  | _ => []

def namesOfItems : List Tree → List Text
  | [] => []
  | item :: rest => item.names ++ namesOfItems rest

def namesOfMembers : List (Text × Tree) → List Text
  | [] => []
  | (name, value) :: rest => name :: (value.names ++ namesOfMembers rest)

end

/-- What `JSON.parse` keeps of a repeated name: its last value. -/
def lastMember (members : List (Text × Tree)) (name : Text) : Option Tree :=
  (members.reverse.find? fun m => m.1 == name).map Prod.snd

/-- `Object.keys`, up to order. -/
def ownKeys (members : List (Text × Tree)) : List Text := (members.map Prod.fst).dedup

/-! ## §2. Reading -/

/-- Past white space. -/
def skip (text : Text) : Text :=
  text.dropWhile fun u => decide (u.val = 32 ∨ u.val = 9 ∨ u.val = 10 ∨ u.val = 13)

def isDigit (u : CodeUnit) : Bool := 48 ≤ u.val && u.val ≤ 57

def takeDigits (text : Text) : List Nat × Text :=
  ((text.takeWhile isDigit).map fun u => u.val - 48, text.dropWhile isDigit)

/-- `0 | [1-9][0-9]*`. -/
def parseWhole : Text → Option (List Nat × Text)
  | [] => none
  | u :: rest =>
    if u.val = 48 then some ([0], rest)
    else if isDigit u then some (takeDigits (u :: rest))
    else none

/-- A run of one digit at least. -/
def parseDigits (text : Text) : Option (List Nat × Text) :=
  if (takeDigits text).1 = [] then none else some (takeDigits text)

/-- `(\.[0-9]+)?`. -/
def parseFraction : Text → Option (List Nat × Text)
  | [] => some ([], [])
  | u :: rest => if u.val = 46 then parseDigits rest else some ([], u :: rest)

/-- `([eE][+-]?[0-9]+)?`. -/
def parseExponent : Text → Option (Int × Text)
  | [] => some (0, [])
  | u :: rest =>
    if u.val = 101 ∨ u.val = 69 then
      match rest with
      | [] => none
      | sign :: more =>
        if sign.val = 45 then (parseDigits more).map (Prod.map (fun ds => -(digitsValue ds : Int)) id)
        else if sign.val = 43 then (parseDigits more).map (Prod.map (fun ds => (digitsValue ds : Int)) id)
        else (parseDigits rest).map (Prod.map (fun ds => (digitsValue ds : Int)) id)
    else some (0, u :: rest)

def parseSign : Text → Bool × Text
  | [] => (false, [])
  | u :: rest => if u.val = 45 then (true, rest) else (false, u :: rest)

def parseNumber (text : Text) : Option (NumberLiteral × Text) :=
  (parseWhole (parseSign text).2).bind fun w =>
    (parseFraction w.2).bind fun f =>
      (parseExponent f.2).map (Prod.map (fun e => ⟨(parseSign text).1, w.1, f.1, e⟩) id)

/-- The value of a hexadecimal digit of either case. -/
def hexUnit (u : CodeUnit) : Option Nat :=
  if 48 ≤ u.val ∧ u.val ≤ 57 then some (u.val - 48)
  else if 97 ≤ u.val ∧ u.val ≤ 102 then some (u.val - 87)
  else if 65 ≤ u.val ∧ u.val ≤ 70 then some (u.val - 55)
  else none

/-- `\uXXXX`. -/
def hexEscape (a b c d : CodeUnit) : Option CodeUnit :=
  (hexUnit a).bind fun a => (hexUnit b).bind fun b => (hexUnit c).bind fun c =>
    (hexUnit d).map fun d => Fin.ofNat 65536 (((a * 16 + b) * 16 + c) * 16 + d)

/-- What stands behind a backslash. -/
def escape (u : CodeUnit) : Option CodeUnit :=
  if u.val = 34 ∨ u.val = 92 ∨ u.val = 47 then some u
  else if u.val = 98 then some 8
  else if u.val = 102 then some 12
  else if u.val = 110 then some 10
  else if u.val = 114 then some 13
  else if u.val = 116 then some 9
  else none

/-- A string, behind its opening quote. -/
def parseString : Text → Option (Text × Text)
  | [] => none
  | u :: rest =>
    if u.val = 34 then some ([], rest)
    else if u.val = 92 then
      match rest with
      | [] => none
      | e :: rest =>
        if e.val = 117 then
          match rest with
          | a :: b :: c :: d :: rest =>
            (hexEscape a b c d).bind fun x => (parseString rest).map (Prod.map (x :: ·) id)
          | _ => none
        else (escape e).bind fun x => (parseString rest).map (Prod.map (x :: ·) id)
    else if u.val < 32 then none
    else (parseString rest).map (Prod.map (u :: ·) id)

/-- The elements of a list behind its opening bracket, up to `close`. -/
def parseElements {α : Type} (element : Text → Option (α × Text)) (close : Nat) :
    Nat → Text → Option (List α × Text)
  | 0, _ => none
  | fuel + 1, text =>
    match element text with
    | none => none
    | some (x, rest) =>
      match skip rest with
      | [] => none
      | u :: rest =>
        if u.val = close then some ([x], rest)
        else if u.val = 44 then
          (parseElements element close fuel rest).map (Prod.map (x :: ·) id)
        else none

/-- A list behind its opening bracket, empty or not. -/
def parseBracketed {α : Type} (element : Text → Option (α × Text)) (close fuel : Nat)
    (text : Text) : Option (List α × Text) :=
  match skip text with
  | [] => none
  | u :: rest => if u.val = close then some ([], rest) else parseElements element close fuel text

/-- `"name" : value`. -/
def parseMember (value : Text → Option (Tree × Text)) (text : Text) :
    Option ((Text × Tree) × Text) :=
  match skip text with
  | [] => none
  | u :: rest =>
    if u.val = 34 then
      (parseString rest).bind fun name =>
        match skip name.2 with
        | [] => none
        | u :: rest => if u.val = 58 then (value rest).map (Prod.map (fun v => (name.1, v)) id) else none
    else none

/-- One of the three words. -/
def parseWord (text : Text) : Option (Tree × Text) :=
  if [110, 117, 108, 108].isPrefixOf text then some (.null, text.drop 4)
  else if [116, 114, 117, 101].isPrefixOf text then some (.bool true, text.drop 4)
  else if [102, 97, 108, 115, 101].isPrefixOf text then some (.bool false, text.drop 5)
  else none

/-- One value, behind white space. -/
def parseValue : Nat → Text → Option (Tree × Text)
  | 0, _ => none
  | fuel + 1, text =>
    match skip text with
    | [] => none
    | u :: rest =>
      if u.val = 34 then (parseString rest).map (Prod.map .string id)
      else if u.val = 91 then
        (parseBracketed (parseValue fuel) 93 fuel rest).map (Prod.map .array id)
      else if u.val = 123 then
        (parseBracketed (parseMember (parseValue fuel)) 125 fuel rest).map (Prod.map .object id)
      else if u.val = 45 ∨ isDigit u then
        (parseNumber (u :: rest)).map (Prod.map .number id)
      else parseWord (u :: rest)

/-- The tree of a text; `none` where `JSON.parse` throws. -/
def parse (text : Text) : Option Tree :=
  match parseValue (text.length + 1) text with
  | none => none
  | some (tree, rest) => if skip rest = [] then some tree else none

/-! ## §3. The fuel never runs out -/

/-- A reader that takes something away. -/
def Shrinks {α : Type} (p : Text → Option (α × Text)) : Prop :=
  ∀ text x rest, p text = some (x, rest) → rest.length < text.length

/-! ## §4. Plain texts and printed numbers -/

/-- A character that stands for itself in a string. -/
def Plain (u : CodeUnit) : Prop := u.val ≠ 34 ∧ u.val ≠ 92 ∧ 32 ≤ u.val

variable {s : Text}

/-- **A text without escapes reads as itself.** -/
theorem parseString_plain (h : ∀ u ∈ s, Plain u) (rest : Text) :
    parseString (s ++ 34 :: rest) = some (s, rest) := by
  induction s with
  | nil =>
    rw [nil_append, parseString.eq_def]
    rfl
  | cons u s ih =>
    obtain ⟨hquote, hslash, hcontrol⟩ := h u (by simp)
    rw [cons_append, parseString.eq_def]
    dsimp only
    rw [if_neg hquote, if_neg hslash, if_neg (by omega), ih fun u hu => h u (mem_cons_of_mem _ hu)]
    rfl

/-- The text of a natural number. -/
def natText (n : Nat) : Text := toText (Nat.repr n).toList

theorem utf16_digitChar : ∀ d < 10, utf16 (Nat.digitChar d) = [Fin.ofNat 65536 (48 + d)] := by
  decide

variable {n : Nat} {u : CodeUnit}

theorem natText_eq (h : 0 < n) :
    natText n = (Nat.digits 10 n).reverse.map fun d => Fin.ofNat 65536 (48 + d) := by
  unfold natText
  rw [Nat.toList_repr]
  induction n using Nat.strongRecOn with
  | ind n ih =>
    rw [Nat.digits_def' (by norm_num) h, reverse_cons, map_append]
    by_cases hsmall : n < 10
    · have hzero : n / 10 = 0 := by omega
      rw [Nat.toDigits_of_lt_base hsmall, hzero, Nat.mod_eq_of_lt hsmall]
      simp [toText, utf16_digitChar n hsmall]
    · rw [Nat.toDigits_of_base_le (by norm_num) (by omega)]
      show (_ ++ _ : List Char).flatMap utf16 = _
      rw [flatMap_append]
      show toText (Nat.toDigits 10 (n / 10)) ++ _ = _
      rw [ih (n / 10) (by omega) (by omega)]
      simp [utf16_digitChar (n % 10) (by omega)]

def digitUnit (d : Nat) : CodeUnit := Fin.ofNat 65536 (48 + d)

theorem val_digitUnit {d : Nat} (h : d < 10) : (digitUnit d).val = 48 + d := by
  show (48 + d) % 65536 = 48 + d
  omega

theorem isDigit_digitUnit {d : Nat} (h : d < 10) : isDigit (digitUnit d) = true := by
  have hval := val_digitUnit h
  simp only [isDigit, hval, Bool.and_eq_true, decide_eq_true_eq]
  omega

theorem takeDigits_map {digits : List Nat} (hlt : ∀ d ∈ digits, d < 10) (rest : Text)
    (hu : isDigit u = false) :
    takeDigits (digits.map digitUnit ++ u :: rest) = (digits, u :: rest) := by
  have hall : ∀ v ∈ digits.map digitUnit, isDigit v = true := by
    intro v hv
    obtain ⟨d, hd, rfl⟩ := mem_map.mp hv
    exact isDigit_digitUnit (hlt d hd)
  have hback : (digits.map digitUnit).map (fun v => v.val - 48) = digits := by
    have hid : digits.map ((fun v : CodeUnit => v.val - 48) ∘ digitUnit) = digits.map id := by
      apply map_congr_left
      intro d hd
      show (digitUnit d).val - 48 = d
      rw [val_digitUnit (hlt d hd)]
      omega
    rw [map_map, hid, map_id]
  unfold takeDigits
  rw [takeWhile_append_of_pos hall, dropWhile_append_of_pos hall,
    takeWhile_cons_of_neg (by simp [hu]), dropWhile_cons_of_neg (by simp [hu]),
    append_nil, hback]

/-- **A printed number reads as the number.** -/
theorem parseNumber_natText (h : 0 < n) (rest : Text) (hdigit : isDigit u = false)
    (hdot : u.val ≠ 46) (hexp : ¬ (u.val = 101 ∨ u.val = 69)) :
    parseNumber (natText n ++ u :: rest) =
      some (⟨false, (Nat.digits 10 n).reverse, [], 0⟩, u :: rest) := by
  have hlt : ∀ d ∈ (Nat.digits 10 n).reverse, d < 10 := fun d hd =>
    Nat.digits_lt_base (by norm_num) (mem_reverse.mp hd)
  have hhead := Radix.head?_digits 10 n
  have hne : (Nat.digits 10 n).reverse ≠ [] := by
    simpa using Nat.digits_ne_nil_iff_ne_zero.mpr (by omega)
  rw [natText_eq h]
  show parseNumber ((Nat.digits 10 n).reverse.map digitUnit ++ u :: rest) = _
  revert hlt hhead hne
  generalize (Nat.digits 10 n).reverse = digits
  intro hlt hhead hne
  have hrun := takeDigits_map hlt rest hdigit
  cases digits with
  | nil => exact absurd rfl hne
  | cons d digits =>
    have hd := hlt d (by simp)
    have hval := val_digitUnit hd
    have hfirst : d ≠ 0 := by simpa using hhead
    have hsign : parseSign (digitUnit d :: (digits.map digitUnit ++ u :: rest)) =
        (false, digitUnit d :: (digits.map digitUnit ++ u :: rest)) := by
      rw [parseSign, if_neg (by omega)]
    have hwhole : parseWhole (digitUnit d :: (digits.map digitUnit ++ u :: rest)) =
        some (d :: digits, u :: rest) := by
      rw [parseWhole, if_neg (by omega), if_pos (isDigit_digitUnit hd)]
      exact congrArg some hrun
    have hfraction : parseFraction (u :: rest) = some ([], u :: rest) := by
      rw [parseFraction, if_neg hdot]
    have hexponent : parseExponent (u :: rest) = some (0, u :: rest) := by
      exact if_neg hexp
    show parseNumber (digitUnit d :: (digits.map digitUnit ++ u :: rest)) = _
    unfold parseNumber
    rw [hsign]
    rw [hwhole]
    dsimp only [Option.bind_some]
    rw [hfraction]
    dsimp only [Option.bind_some]
    rw [hexponent]
    rfl

theorem exists_natText_cons (h : 0 < n) : ∃ u rest, natText n = u :: rest ∧ isDigit u = true := by
  have hne : Nat.digits 10 n ≠ [] := Nat.digits_ne_nil_iff_ne_zero.mpr (by omega)
  cases hdigits : (Nat.digits 10 n).reverse with
  | nil => exact absurd (reverse_eq_nil_iff.mp hdigits) hne
  | cons d digits =>
    have hd : d < 10 := by
      apply Nat.digits_lt_base (b := 10) (m := n) (by norm_num)
      rw [← mem_reverse, hdigits]
      exact mem_cons_self
    refine ⟨digitUnit d, digits.map digitUnit, ?_, isDigit_digitUnit hd⟩
    rw [natText_eq h, hdigits]
    rfl

theorem skip_cons (h : ¬ (u.val = 32 ∨ u.val = 9 ∨ u.val = 10 ∨ u.val = 13)) (rest : Text) :
    skip (u :: rest) = u :: rest :=
  dropWhile_cons_of_neg (by simpa using h)

theorem parseValue_natText (fuel : Nat) (h : 0 < n) (rest : Text) (hdigit : isDigit u = false)
    (hdot : u.val ≠ 46) (hexp : ¬ (u.val = 101 ∨ u.val = 69)) :
    parseValue (fuel + 1) (natText n ++ u :: rest) =
      some (.number ⟨false, (Nat.digits 10 n).reverse, [], 0⟩, u :: rest) := by
  have hnumber := parseNumber_natText h rest hdigit hdot hexp
  obtain ⟨d, more, hcons, hd⟩ := exists_natText_cons h
  rw [hcons, cons_append] at hnumber ⊢
  have hrange : 48 ≤ d.val ∧ d.val ≤ 57 := by
    simpa [isDigit] using hd
  rw [parseValue, skip_cons (by omega)]
  dsimp only
  rw [if_neg (by omega), if_neg (by omega), if_neg (by omega), if_pos (Or.inr hd), hnumber]
  rfl

theorem parseValue_plain (fuel : Nat) (h : ∀ u ∈ s, Plain u) (rest : Text) :
    parseValue (fuel + 1) (34 :: (s ++ 34 :: rest)) = some (.string s, rest) := by
  rw [parseValue, skip_cons (by decide)]
  dsimp only
  rw [if_pos (by decide), parseString_plain h]
  rfl

theorem parseMember_plain (value : Text → Option (Tree × Text))
    (h : ∀ u ∈ s, Plain u) (rest : Text) : parseMember value (34 :: (s ++ 34 :: 58 :: rest)) =
      (value rest).map (Prod.map (fun v => (s, v)) id) := by
  unfold parseMember
  rw [skip_cons (by decide)]
  dsimp only
  rw [if_pos (by decide), parseString_plain h, Option.bind_some]
  rw [skip_cons (by decide)]
  dsimp only
  rw [if_pos (by decide)]

theorem value_natText (h : n < 2 ^ 53) :
    (⟨false, (Nat.digits 10 n).reverse, [], 0⟩ : NumberLiteral).value = n := by
  have hexact : (⟨false, (Nat.digits 10 n).reverse, [], 0⟩ : NumberLiteral).exact = n := by
    simp [NumberLiteral.exact, digitsValue, Radix.value_digits]
  unfold NumberLiteral.value
  rw [hexact, Double.nearest_natCast h]

end Motebit.Lib.JsonText
