/-
  Motebit.Lib.Json — JSON VALUES, THEIR TEXT, AND READING IT BACK.

  A JavaScript string is a list of 16-bit code units, surrogates paired or not.  A JSON text is
  a list of characters: the writer escapes a lone surrogate, so every text it writes has a
  UTF-8 form.  A finite number is known by the text `Number::toString` gives it, and zero has
  two signs that are written alike.

  Main results: `parse_render`, `render_injective`, `canonical_inj`, `canonical_eq_iff`.
-/

import Mathlib.Data.List.Lex
import Mathlib.Data.List.Perm.Basic
import Motebit.Lib.Sort

namespace Motebit.Lib

open List

/-! ## §1. Strings -/

abbrev CodeUnit := Fin 65536

instance neZero_units : @NeZero Nat Zero.ofOfNat0 65536 := ⟨by decide⟩

instance lawful_unit : LawfulBEq CodeUnit := inferInstance

/-- A JavaScript string. -/
abbrev Text := List CodeUnit

instance lawful_text : LawfulBEq Text := inferInstance

/-- The code units of a character. -/
def utf16 (c : Char) : Text :=
  if c.toNat < 0x10000 then [Fin.ofNat 65536 c.toNat]
  else [Fin.ofNat 65536 (0xD800 + (c.toNat - 0x10000) / 0x400),
    Fin.ofNat 65536 (0xDC00 + (c.toNat - 0x10000) % 0x400)]

/-- A text of characters as a JavaScript string. -/
def toText (s : List Char) : Text := s.flatMap utf16

def CodeUnit.isHigh (u : CodeUnit) : Bool := 0xD800 ≤ u.val && u.val < 0xDC00

def CodeUnit.isLow (u : CodeUnit) : Bool := 0xDC00 ≤ u.val && u.val < 0xE000

def pairChar (high low : CodeUnit) : Char :=
  Char.ofNat (0x10000 + (high.val - 0xD800) * 0x400 + (low.val - 0xDC00))

/-- A lower-case hexadecimal digit. -/
def hexChar (n : Nat) : Char :=
  Char.ofNat (if n < 10 then 48 + n else 87 + n)

def hexVal (c : Char) : Nat :=
  if c.toNat < 58 then c.toNat - 48 else c.toNat - 87

def escapeUnit (u : CodeUnit) : List Char :=
  ['\\', 'u', hexChar (u.val / 0x1000), hexChar (u.val / 0x100 % 0x10),
    hexChar (u.val / 0x10 % 0x10), hexChar (u.val % 0x10)]

/-- One code unit that is not part of a pair, as `JSON.stringify` writes it. -/
def quoteUnit (u : CodeUnit) : List Char :=
  if u.val = 0x22 then ['\\', '"']
  else if u.val = 0x5C then ['\\', '\\']
  else if u.val = 0x08 then ['\\', 'b']
  else if u.val = 0x09 then ['\\', 't']
  else if u.val = 0x0A then ['\\', 'n']
  else if u.val = 0x0C then ['\\', 'f']
  else if u.val = 0x0D then ['\\', 'r']
  else if u.val < 0x20 ∨ u.isHigh ∨ u.isLow then escapeUnit u
  else [Char.ofNat u.val]

/-- What stands between the quotes. -/
def quoteBody : Text → List Char
  | high :: low :: rest =>
    if high.isHigh && low.isLow then pairChar high low :: quoteBody rest
    else quoteUnit high ++ quoteBody (low :: rest)
  | [u] => quoteUnit u
  | [] => []

/-- `JSON.stringify` of a string. -/
def quote (s : Text) : List Char := '"' :: (quoteBody s ++ ['"'])

/-- Reads a string up to its closing quote. -/
def unquote : List Char → Option (Text × List Char)
  | '"' :: rest => some ([], rest)
  | '\\' :: 'u' :: a :: b :: c :: d :: rest =>
    (unquote rest).map fun (s, rest) =>
      (Fin.ofNat 65536 (hexVal a * 0x1000 + hexVal b * 0x100 + hexVal c * 0x10 + hexVal d) :: s,
        rest)
  | '\\' :: 'b' :: rest => (unquote rest).map fun (s, rest) => (0x08 :: s, rest)
  | '\\' :: 't' :: rest => (unquote rest).map fun (s, rest) => (0x09 :: s, rest)
  | '\\' :: 'n' :: rest => (unquote rest).map fun (s, rest) => (0x0A :: s, rest)
  | '\\' :: 'f' :: rest => (unquote rest).map fun (s, rest) => (0x0C :: s, rest)
  | '\\' :: 'r' :: rest => (unquote rest).map fun (s, rest) => (0x0D :: s, rest)
  | '\\' :: c :: rest => (unquote rest).map fun (s, rest) => (utf16 c ++ s, rest)
  | c :: rest => (unquote rest).map fun (s, rest) => (utf16 c ++ s, rest)
  | [] => none

theorem hexVal_hexChar : ∀ n < 16, hexVal (hexChar n) = n := by decide

theorem toNat_ofNat {n : Nat} (h : n.isValidChar) : (Char.ofNat n).toNat = n := by
  rw [Char.ofNat, dif_pos h]
  rfl

theorem utf16_ofNat {u : CodeUnit} (hhigh : u.isHigh = false) (hlow : u.isLow = false) :
    utf16 (Char.ofNat u.val) = [u] := by
  have hvalid : u.val.isValidChar := by
    simp only [CodeUnit.isHigh, CodeUnit.isLow, Bool.and_eq_false_iff, decide_eq_false_iff_not]
      at hhigh hlow
    omega
  unfold utf16
  rw [toNat_ofNat hvalid, if_pos (by omega)]
  simp

variable {high low : CodeUnit}

theorem pairChar_toNat (hhigh : high.isHigh = true) (hlow : low.isLow = true) :
    (pairChar high low).toNat = 0x10000 + (high.val - 0xD800) * 0x400 + (low.val - 0xDC00) := by
  simp only [CodeUnit.isHigh, CodeUnit.isLow, Bool.and_eq_true, decide_eq_true_eq] at hhigh hlow
  have hvalid : (0x10000 + (high.val - 0xD800) * 0x400 + (low.val - 0xDC00)).isValidChar := by
    omega
  unfold pairChar
  rw [toNat_ofNat hvalid]

theorem utf16_pairChar (hhigh : high.isHigh = true)
    (hlow : low.isLow = true) : utf16 (pairChar high low) = [high, low] := by
  have hval := pairChar_toNat hhigh hlow
  simp only [CodeUnit.isHigh, CodeUnit.isLow, Bool.and_eq_true, decide_eq_true_eq] at hhigh hlow
  unfold utf16
  rw [if_neg (by omega), hval]
  have hfirst : Fin.ofNat 65536
      (0xD800 + (0x10000 + (high.val - 0xD800) * 0x400 + (low.val - 0xDC00) - 0x10000) / 0x400)
        = high := by
    apply Fin.ext
    rw [Fin.val_ofNat]
    omega
  have hsecond : Fin.ofNat 65536
      (0xDC00 + (0x10000 + (high.val - 0xD800) * 0x400 + (low.val - 0xDC00) - 0x10000) % 0x400)
        = low := by
    apply Fin.ext
    rw [Fin.val_ofNat]
    omega
  rw [hfirst, hsecond]

theorem unquote_plain {c : Char} (hquote : c ≠ '"') (hback : c ≠ '\\') (rest : List Char) :
    unquote (c :: rest) = (unquote rest).map fun (s, rest) => (utf16 c ++ s, rest) := by
  rw [unquote.eq_def]
  split <;> simp_all

theorem unquote_escapeUnit (u : CodeUnit) (rest : List Char) :
    unquote (escapeUnit u ++ rest) = (unquote rest).map fun (s, rest) => (u :: s, rest) := by
  unfold escapeUnit
  simp only [List.cons_append, List.nil_append, unquote]
  rw [hexVal_hexChar _ (by omega), hexVal_hexChar _ (by omega), hexVal_hexChar _ (by omega),
    hexVal_hexChar _ (by omega)]
  have heq : Fin.ofNat 65536 (u.val / 0x1000 * 0x1000 + u.val / 0x100 % 0x10 * 0x100
      + u.val / 0x10 % 0x10 * 0x10 + u.val % 0x10) = u := by
    apply Fin.ext
    show (u.val / 0x1000 * 0x1000 + u.val / 0x100 % 0x10 * 0x100
      + u.val / 0x10 % 0x10 * 0x10 + u.val % 0x10) % 65536 = u.val
    omega
  rw [heq]

theorem unquote_quoteUnit (u : CodeUnit) (rest : List Char) :
    unquote (quoteUnit u ++ rest) = (unquote rest).map fun (s, rest) => (u :: s, rest) := by
  have hnum : ∀ n : Nat, u.val = n → n < 65536 → u = Fin.ofNat 65536 n := by
    intro n h hlt
    apply Fin.ext
    rw [h]
    exact (Nat.mod_eq_of_lt hlt).symm
  unfold quoteUnit
  split
  · next h => rw [hnum _ h (by omega)]; simp [unquote, utf16]
  split
  · next h => rw [hnum _ h (by omega)]; simp [unquote, utf16]
  iterate 5
    split
    · next h => rw [hnum _ h (by omega)]; simp only [List.cons_append, List.nil_append, unquote]; rfl
  split
  · exact unquote_escapeUnit u rest
  next hquote hback _ _ _ _ _ hplain =>
  simp only [not_or, Bool.not_eq_true] at hplain
  obtain ⟨-, hhigh, hlow⟩ := hplain
  have hself := utf16_ofNat hhigh hlow
  have hne : ∀ c : Char, u.val ≠ c.toNat → c.toNat < 0x10000 → Char.ofNat u.val ≠ c := by
    intro c hc hlt heq
    rw [heq] at hself
    unfold utf16 at hself
    rw [if_pos hlt] at hself
    have hval := congrArg Fin.val (List.cons.inj hself).1
    rw [show (Fin.ofNat 65536 c.toNat).val = c.toNat % 65536 from rfl,
      Nat.mod_eq_of_lt (by omega)] at hval
    exact hc hval.symm
  show unquote (Char.ofNat u.val :: rest) = _
  rw [unquote_plain (hne _ hquote (by decide)) (hne _ hback (by decide)), hself]
  rfl

/-- **A string reads back**, with what follows it. -/
theorem unquote_quoteBody (s : Text) (rest : List Char) :
    unquote (quoteBody s ++ '"' :: rest) = some (s, rest) := by
  fun_induction quoteBody s with
  | case1 high low tail hpair ih =>
    rw [Bool.and_eq_true] at hpair
    have hval := pairChar_toNat hpair.1 hpair.2
    have hne : ∀ c : Char, c.toNat < 0x10000 → pairChar high low ≠ c := by
      intro c hlt heq
      rw [heq] at hval
      omega
    rw [cons_append, unquote_plain (hne _ (by decide)) (hne _ (by decide)), ih,
      utf16_pairChar hpair.1 hpair.2]
    rfl
  | case2 high low tail hpair ih =>
    rw [append_assoc, unquote_quoteUnit, ih]
    rfl
  | case3 u =>
    rw [unquote_quoteUnit]
    rfl
  | case4 => rfl

/-- `b.toString(16).padStart(2, "0")` of every byte. -/
def bytesToHex (bytes : ByteArray) : List Char :=
  bytes.data.toList.flatMap fun b => [hexChar (b.toNat / 16), hexChar (b.toNat % 16)]

theorem bytesToHex_inj {a b : ByteArray} (h : toText (bytesToHex a) = toText (bytesToHex b)) :
    a = b := by
  have hone : ∀ n < 16, (utf16 (hexChar n)).length = 1 := by decide
  have hinj : ∀ m < 16, ∀ n < 16, utf16 (hexChar m) = utf16 (hexChar n) → m = n := by decide
  have hbytes : ∀ xs ys : List UInt8,
      toText (xs.flatMap fun b => [hexChar (b.toNat / 16), hexChar (b.toNat % 16)])
        = toText (ys.flatMap fun b => [hexChar (b.toNat / 16), hexChar (b.toNat % 16)]) →
      xs = ys := by
    intro xs
    induction xs with
    | nil =>
      intro ys h
      cases ys with
      | nil => rfl
      | cons y =>
        have hy := y.toNat_lt
        have hlen := congrArg List.length h
        simp [toText, hone _ (show y.toNat / 16 < 16 by omega)] at hlen
        omega
    | cons x xs ih =>
      intro ys h
      have hx := x.toNat_lt
      cases ys with
      | nil =>
        have hlen := congrArg List.length h
        simp [toText, hone _ (show x.toNat / 16 < 16 by omega)] at hlen
      | cons y ys =>
        have hy := y.toNat_lt
        obtain ⟨hhigh, h⟩ := append_inj h ((hone _ (by omega)).trans (hone _ (by omega)).symm)
        obtain ⟨hlow, h⟩ := append_inj h ((hone _ (by omega)).trans (hone _ (by omega)).symm)
        have hhigh' := hinj _ (by omega) _ (by omega) hhigh
        have hlow' := hinj _ (by omega) _ (by omega) hlow
        rw [ih ys h, show x = y from UInt8.toNat_inj.mp (by omega)]
  have hlist := hbytes a.data.toList b.data.toList h
  exact ByteArray.ext (Array.toList_inj.mp hlist)

theorem toNat_scalar (c : Char) : c.toNat < 0xD800 ∨ (0xDFFF < c.toNat ∧ c.toNat < 0x110000) := c.valid

theorem utf16_append {c d : Char} {rest rest' : Text} (h : utf16 c ++ rest = utf16 d ++ rest') :
    c = d ∧ rest = rest' := by
  have hc := toNat_scalar c
  have hd := toNat_scalar d
  have hsame : c.toNat = d.toNat → c = d := fun h => Char.ext (UInt32.toNat.inj h)
  unfold utf16 at h
  by_cases hcsmall : c.toNat < 0x10000
  · by_cases hdsmall : d.toNat < 0x10000
    · rw [if_pos hcsmall, if_pos hdsmall, cons_append, cons_append] at h
      obtain ⟨hunit, hrest⟩ := List.cons.inj h
      have hvalue := congrArg Fin.val hunit
      rw [Fin.val_ofNat, Fin.val_ofNat] at hvalue
      exact ⟨hsame (by omega), hrest⟩
    · rw [if_pos hcsmall, if_neg hdsmall, cons_append, cons_append] at h
      have hvalue := congrArg Fin.val (List.cons.inj h).1
      rw [Fin.val_ofNat, Fin.val_ofNat] at hvalue
      omega
  · by_cases hdsmall : d.toNat < 0x10000
    · rw [if_neg hcsmall, if_pos hdsmall, cons_append, cons_append] at h
      have hvalue := congrArg Fin.val (List.cons.inj h).1
      rw [Fin.val_ofNat, Fin.val_ofNat] at hvalue
      omega
    · rw [if_neg hcsmall, if_neg hdsmall] at h
      simp only [cons_append, nil_append, List.cons.injEq] at h
      obtain ⟨hhigh, hlow, hrest⟩ := h
      have hhigh := congrArg Fin.val hhigh
      have hlow := congrArg Fin.val hlow
      rw [Fin.val_ofNat, Fin.val_ofNat] at hhigh hlow
      exact ⟨hsame (by omega), hrest⟩

theorem utf16_ne_nil (c : Char) : utf16 c ≠ [] := by
  unfold utf16
  split <;> exact cons_ne_nil _ _

/-- **One text, one list of characters.** -/
theorem toText_injective {s t : List Char} (h : toText s = toText t) : s = t := by
  induction s generalizing t with
  | nil =>
    cases t with
    | nil => rfl
    | cons d => exact absurd (append_eq_nil_iff.mp h.symm).1 (utf16_ne_nil d)
  | cons c s ih =>
    cases t with
    | nil => exact absurd (append_eq_nil_iff.mp h).1 (utf16_ne_nil c)
    | cons =>
      obtain ⟨rfl, hrest⟩ := utf16_append h
      rw [ih hrest]

/-! ## §2. Values -/

def isNumberChar (c : Char) : Bool := c.isDigit || c == '-' || c == '+' || c == '.' || c == 'e'

/-- What `Number::toString` may print of a finite number. -/
def isNumberText (s : List Char) : Bool :=
  s.all isNumberChar && s.head?.any fun c => c.isDigit || c == '-'

/-- The text of a finite number; two numbers other than the zeros have different texts. -/
theorem isNumberText_zero : isNumberText ['0'] = true := by decide

theorem isNumberText_one : isNumberText ['1'] = true := by decide

abbrev NumberText := { s : List Char // isNumberText s = true }

/-- A finite number. -/
inductive JsonNum
  | negZero
  | decimal (text : NumberText)
  deriving DecidableEq

/-- `Number::toString`. -/
def JsonNum.text : JsonNum → List Char
  | .negZero => ['0']
  | .decimal text => text.val

/-- The number up to the sign of a zero, as `===` compares it. -/
def JsonNum.unsigned : JsonNum → JsonNum
  | .negZero => .decimal ⟨['0'], isNumberText_zero⟩
  | .decimal text => .decimal text

/-- A JSON value; an object lists its members in their own order. -/
inductive Json
  | null
  | bool (b : Bool)
  | number (n : JsonNum)
  | string (s : Text)
  | array (items : List Json)
  | object (members : List (Text × Json))

namespace Json

/-- **Induction on a value**, through the items of arrays and the members of objects. -/
theorem induct {motive : Json → Prop} (null : motive .null) (bool : ∀ b, motive (.bool b))
    (number : ∀ n, motive (.number n)) (string : ∀ s, motive (.string s))
    (array : ∀ items, (∀ item ∈ items, motive item) → motive (.array items))
    (object : ∀ members, (∀ m ∈ members, motive m.2) → motive (.object members))
    (j : Json) : motive j :=
  @Json.rec motive (fun items => ∀ item ∈ items, motive item)
    (fun members => ∀ m ∈ members, motive m.2) (fun m => motive m.2) null bool number string array object
    nofun
    (fun _ _ hhead hrest => forall_mem_cons.mpr ⟨hhead, hrest⟩)
    nofun
    (fun _ _ hhead hrest => forall_mem_cons.mpr ⟨hhead, hrest⟩)
    (fun _ _ hvalue => hvalue) j

end Json

def joinComma : List (List Char) → List Char
  | [] => []
  | [part] => part
  | part :: next :: rest => part ++ ',' :: joinComma (next :: rest)

namespace Json

mutual

/-- `JSON.stringify` of a value. -/
def render : Json → List Char
  | .null => "null".toList
  | .bool true => "true".toList
  | .bool false => "false".toList
  | .number n => n.text
  | .string s => quote s
  | .array items => '[' :: (joinComma (renderItems items) ++ [']'])
  | .object members => '{' :: (joinComma (renderMembers members) ++ ['}'])

def renderItems : List Json → List (List Char)
  | [] => []
  | item :: rest => item.render :: renderItems rest

def renderMembers : List (Text × Json) → List (List Char)
  | [] => []
  | (key, value) :: rest => (quote key ++ ':' :: value.render) :: renderMembers rest

end

theorem renderItems_eq (items : List Json) : renderItems items = items.map render := by
  induction items with
  | nil => rfl
  | cons item rest ih => rw [renderItems, ih, map_cons]

def renderMember (m : Text × Json) : List Char := quote m.1 ++ ':' :: m.2.render

theorem renderMembers_eq (members : List (Text × Json)) :
    renderMembers members = members.map renderMember := by
  induction members with
  | nil => rfl
  | cons m rest ih => rw [renderMembers, ih, map_cons, renderMember]

end Json

/-! ## §3. Reading -/

/-- Reads the elements of a list after its opening bracket, up to `close`. -/
def parseList {α : Type} (element : List Char → Option (α × List Char)) (close : Char) :
    Nat → List Char → Option (List α × List Char)
  | 0, _ => none
  | fuel + 1, text =>
    match element text with
    | some (x, c :: rest) =>
      if c = close then some ([x], rest)
      else if c = ',' then
        (parseList element close fuel rest).map fun (xs, rest) => (x :: xs, rest)
      else none
    | _ => none

namespace Json

def parseMember (value : List Char → Option (Json × List Char)) :
    List Char → Option ((Text × Json) × List Char)
  | '"' :: text =>
    match unquote text with
    | some (key, ':' :: rest) => (value rest).map fun (v, rest) => ((key, v), rest)
    | _ => none
  | _ => none

def parseNumber (text : List Char) : Option (Json × List Char) :=
  if h : isNumberText (text.takeWhile isNumberChar) = true then
    some (.number (.decimal ⟨text.takeWhile isNumberChar, h⟩), text.dropWhile isNumberChar)
  else none

def parseValue : Nat → List Char → Option (Json × List Char)
  | 0, _ => none
  | fuel + 1, text =>
    match text with
    | 'n' :: 'u' :: 'l' :: 'l' :: rest => some (.null, rest)
    | 't' :: 'r' :: 'u' :: 'e' :: rest => some (.bool true, rest)
    | 'f' :: 'a' :: 'l' :: 's' :: 'e' :: rest => some (.bool false, rest)
    | '"' :: rest => (unquote rest).map fun (s, rest) => (.string s, rest)
    | '[' :: ']' :: rest => some (.array [], rest)
    | '[' :: rest =>
      (parseList (parseValue fuel) ']' fuel rest).map fun (items, rest) => (.array items, rest)
    | '{' :: '}' :: rest => some (.object [], rest)
    | '{' :: rest =>
      (parseList (parseMember (parseValue fuel)) '}' fuel rest).map fun (members, rest) =>
        (.object members, rest)
    | _ => parseNumber text

/-- `JSON.parse`, of a text as `JSON.stringify` writes it: without white space, and with every
    number in the form it is printed in. -/
def parse (text : List Char) : Option Json :=
  match parseValue text.length text with
  | some (value, []) => some value
  | _ => none

/-- What may follow a value. -/
def Ends (rest : List Char) : Prop :=
  ∀ c ∈ rest.head?, isNumberChar c = false

mutual

/-- The value with every zero unsigned, as its text has it. -/
def unsigned : Json → Json
  | .null => .null
  | .bool b => .bool b
  | .number n => .number n.unsigned
  | .string s => .string s
  | .array items => .array (unsignedItems items)
  | .object members => .object (unsignedMembers members)

def unsignedItems : List Json → List Json
  | [] => []
  | item :: rest => item.unsigned :: unsignedItems rest

def unsignedMembers : List (Text × Json) → List (Text × Json)
  | [] => []
  | (key, value) :: rest => (key, value.unsigned) :: unsignedMembers rest

end

theorem unsignedItems_eq (items : List Json) : unsignedItems items = items.map unsigned := by
  induction items with
  | nil => rfl
  | cons item rest ih => rw [unsignedItems, ih, map_cons]

theorem unsignedMembers_eq (members : List (Text × Json)) :
    unsignedMembers members = members.map fun m => (m.1, m.2.unsigned) := by
  induction members with
  | nil => rfl
  | cons m rest ih => rw [unsignedMembers, ih, map_cons]

end Json

/-! ## §4. The round trip -/

theorem length_le_joinComma (parts : List (List Char)) :
    parts.length ≤ (joinComma parts).length + 1 ∧
      ∀ part ∈ parts, part.length ≤ (joinComma parts).length := by
  fun_induction joinComma parts with
  | case1 | case2 => simp
  | case3 part next rest ih =>
    obtain ⟨hcount, hlength⟩ := ih
    simp only [length_append, length_cons] at hcount hlength ⊢
    refine ⟨by omega, fun other hmem => ?_⟩
    rcases mem_cons.mp hmem with rfl | hmem
    · omega
    · have := hlength other hmem
      omega

variable {α β : Type}

/-- **A list reads back** when its elements do, in front of a comma and of the closing
    bracket. -/
theorem parseList_joinComma {write : α → List Char} {read : α → β}
    {element : List Char → Option (β × List Char)} {close : Char} {Follows : List Char → Prop}
    (hcomma : ∀ rest, Follows (',' :: rest)) (hclose : ∀ rest, Follows (close :: rest))
    (hne : close ≠ ',') (xs : List α)
    (helement : ∀ x ∈ xs, ∀ rest, Follows rest → element (write x ++ rest) = some (read x, rest))
    (fuel : Nat) (hfuel : xs.length ≤ fuel) (hsome : xs ≠ []) (rest : List Char) :
    parseList element close fuel (joinComma (xs.map write) ++ close :: rest)
      = some (xs.map read, rest) := by
  induction xs generalizing fuel with
  | nil => exact absurd rfl hsome
  | cons x xs ih =>
    obtain ⟨fuel, rfl⟩ : ∃ n, fuel = n + 1 := ⟨fuel - 1, by simp at hfuel; omega⟩
    have hhead := helement x mem_cons_self
    cases xs with
    | nil =>
      rw [map_singleton, joinComma, parseList, hhead _ (hclose rest)]
      simp
    | cons y ys =>
      have htail := ih (fun z hz => helement z (mem_cons_of_mem x hz)) fuel
        (by simpa using hfuel) (cons_ne_nil y ys)
      rw [map_cons] at htail
      rw [map_cons, map_cons, joinComma, append_assoc, cons_append, parseList, hhead _ (hcomma _)]
      simp only [hne.symm, if_false, if_true]
      rw [htail]
      simp

namespace Json

theorem ends_comma (rest : List Char) : Ends (',' :: rest) := by
  intro c hc
  cases hc
  decide

theorem ends_bracket (rest : List Char) : Ends (']' :: rest) := by
  intro c hc
  cases hc
  decide

theorem ends_brace (rest : List Char) : Ends ('}' :: rest) := by
  intro c hc
  cases hc
  decide

theorem numberText_head (n : NumberText) :
    ∃ c tail, n.val = c :: tail ∧ (c.isDigit = true ∨ c = '-') := by
  obtain ⟨text, h⟩ := n
  unfold isNumberText at h
  cases text with
  | nil => simp at h
  | cons c tail =>
    refine ⟨c, tail, rfl, ?_⟩
    simpa using (Bool.and_eq_true_iff.mp h).2

theorem parseNumber_text (n : NumberText) {rest : List Char} (hends : Ends rest) :
    parseNumber (n.val ++ rest) = some (.number (.decimal n), rest) := by
  have hall : ∀ c ∈ n.val, isNumberChar c = true := by
    have h := n.property
    exact all_eq_true.mp (Bool.and_eq_true_iff.mp h).1
  have hstop : rest.takeWhile isNumberChar = [] ∧ rest.dropWhile isNumberChar = rest := by
    cases rest with
    | nil => exact ⟨rfl, rfl⟩
    | cons c =>
      have hc := hends c rfl
      simp [hc]
  have htake : (n.val ++ rest).takeWhile isNumberChar = n.val := by
    rw [takeWhile_append_of_pos hall, hstop.1, append_nil]
  have hdrop : (n.val ++ rest).dropWhile isNumberChar = rest := by
    rw [dropWhile_append_of_pos hall, hstop.2]
  unfold parseNumber
  simp only [htake, hdrop, n.property, dif_pos]

theorem parseValue_number {c : Char} (hc : c.isDigit = true ∨ c = '-') (fuel : Nat)
    (tail : List Char) : parseValue (fuel + 1) (c :: tail) = parseNumber (c :: tail) := by
  have hne : c ≠ 'n' ∧ c ≠ 't' ∧ c ≠ 'f' ∧ c ≠ '"' ∧ c ≠ '[' ∧ c ≠ '{' := by
    refine ⟨?_, ?_, ?_, ?_, ?_, ?_⟩ <;> (rintro rfl; revert hc; decide)
  rw [parseValue.eq_def]
  split <;> simp_all

theorem render_head (j : Json) : ∃ c tail, j.render = c :: tail ∧ c ≠ ']' := by
  cases j with
  | null => exact ⟨_, _, rfl, by decide⟩
  | bool b => cases b <;> exact ⟨_, _, rfl, by decide⟩
  | number n =>
    cases n with
    | negZero => exact ⟨_, _, rfl, by decide⟩
    | decimal text =>
      obtain ⟨c, tail, heq, hc⟩ := numberText_head text
      exact ⟨c, tail, heq, by rintro rfl; revert hc; decide⟩
  | string | array | object => exact ⟨_, _, rfl, by decide⟩

/-- **A value reads back**, with its zeros unsigned and with what follows it. -/
theorem parseValue_render (j : Json) : ∀ (fuel : Nat) (rest : List Char),
    j.render.length ≤ fuel → Ends rest →
      parseValue fuel (j.render ++ rest) = some (j.unsigned, rest) := by
  have hpos : ∀ j : Json, 0 < j.render.length := by
    intro j
    obtain ⟨c, tail, heq, -⟩ := render_head j
    rw [heq]
    simp
  induction j using induct with
  | null =>
    intro fuel rest hfuel _
    obtain ⟨fuel, rfl⟩ : ∃ n, fuel = n + 1 := ⟨fuel - 1, by have := hpos .null; omega⟩
    rfl
  | bool b =>
    intro fuel rest hfuel _
    obtain ⟨fuel, rfl⟩ : ∃ n, fuel = n + 1 := ⟨fuel - 1, by have := hpos (.bool b); omega⟩
    cases b <;> rfl
  | number n =>
    intro fuel rest hfuel hends
    obtain ⟨fuel, rfl⟩ : ∃ n, fuel = n + 1 := ⟨fuel - 1, by have := hpos (.number n); omega⟩
    obtain ⟨text, hunsigned, htext⟩ : ∃ text, n.unsigned = .decimal text ∧ n.text = text.val := by
      cases n <;> exact ⟨_, rfl, rfl⟩
    obtain ⟨c, tail, heq, hc⟩ := numberText_head text
    have hnumber := parseNumber_text text hends
    rw [render, htext, unsigned, hunsigned]
    rw [heq, List.cons_append] at hnumber ⊢
    rw [parseValue_number hc, hnumber]
  | string s =>
    intro fuel rest hfuel _
    obtain ⟨fuel, rfl⟩ : ∃ n, fuel = n + 1 := ⟨fuel - 1, by have := hpos (.string s); omega⟩
    show (unquote ((quoteBody s ++ ['"']) ++ rest)).map _ = _
    rw [append_assoc, singleton_append, unquote_quoteBody]
    rfl
  | array items ih =>
    intro fuel rest hfuel _
    obtain ⟨fuel, rfl⟩ : ∃ n, fuel = n + 1 := ⟨fuel - 1, by have := hpos (.array items); omega⟩
    rw [render, renderItems_eq] at hfuel ⊢
    rw [unsigned, unsignedItems_eq]
    cases items with
    | nil => rfl
    | cons item others =>
      obtain ⟨hcount, hlength⟩ := length_le_joinComma ((item :: others).map render)
      simp only [length_cons, length_append, length_map, length_nil] at hfuel hcount
      have hread := parseList_joinComma ends_comma ends_bracket (by decide) (item :: others)
        (fun x hx r hr => ih x hx fuel r
          (Nat.le_trans (hlength _ (mem_map_of_mem hx)) (by omega)) hr)
        fuel (by simp only [length_cons]; omega) (cons_ne_nil _ _) rest
      obtain ⟨c, tail, heq, hc⟩ := render_head item
      have hstart : ∃ t, joinComma ((item :: others).map render) ++ ']' :: rest = c :: t := by
        rw [map_cons, heq]
        cases others.map render <;> exact ⟨_, rfl⟩
      obtain ⟨t, hstart⟩ := hstart
      rw [cons_append, append_assoc, singleton_append]
      rw [hstart] at hread ⊢
      have hstep : parseValue (fuel + 1) ('[' :: c :: t)
          = (parseList (parseValue fuel) ']' fuel (c :: t)).map fun (items, rest) =>
              (.array items, rest) := by
        rw [parseValue.eq_def]
        split <;> simp_all
      rw [hstep, hread]
      rfl
  | object members ih =>
    intro fuel rest hfuel _
    obtain ⟨fuel, rfl⟩ : ∃ n, fuel = n + 1 := ⟨fuel - 1, by have := hpos (.object members); omega⟩
    rw [render, renderMembers_eq] at hfuel ⊢
    rw [unsigned, unsignedMembers_eq]
    cases members with
    | nil => rfl
    | cons m others =>
      obtain ⟨hcount, hlength⟩ := length_le_joinComma ((m :: others).map renderMember)
      simp only [length_cons, length_append, length_map, length_nil] at hfuel hcount
      have hmember : ∀ x ∈ m :: others, ∀ r, Ends r →
          parseMember (parseValue fuel) (renderMember x ++ r) = some ((x.1, x.2.unsigned), r) := by
        intro x hx r hr
        have hlen := hlength _ (mem_map_of_mem hx)
        have hvalue : x.2.render.length < (renderMember x).length := by
          unfold renderMember
          simp only [length_append, length_cons]
          omega
        have hquote : renderMember x ++ r
            = '"' :: (quoteBody x.1 ++ '"' :: ':' :: (x.2.render ++ r)) := by
          simp [renderMember, quote]
        rw [hquote, parseMember, unquote_quoteBody]
        simp only
        rw [ih x hx fuel r (by omega) hr]
        rfl
      have hread := parseList_joinComma ends_comma ends_brace (by decide) (m :: others) hmember
        fuel (by simp only [length_cons]; omega) (cons_ne_nil _ _) rest
      have hstart : ∃ t, joinComma ((m :: others).map renderMember) ++ '}' :: rest = '"' :: t := by
        rw [List.map_cons]
        cases others.map renderMember <;> exact ⟨_, rfl⟩
      obtain ⟨t, hstart⟩ := hstart
      rw [List.cons_append, List.append_assoc, List.singleton_append]
      rw [hstart] at hread ⊢
      have hstep : parseValue (fuel + 1) ('{' :: '"' :: t)
          = (parseList (parseMember (parseValue fuel)) '}' fuel ('"' :: t)).map
              fun (members, rest) => (.object members, rest) := by
        rw [parseValue.eq_def]
        split <;> simp_all
      rw [hstep, hread]
      rfl

/-- **`JSON.parse` reads back what `JSON.stringify` wrote**, with its zeros unsigned. -/
theorem parse_render (j : Json) : parse j.render = some j.unsigned := by
  have hread := parseValue_render j j.render.length [] (Nat.le_refl _) (by intro c hc; cases hc)
  rw [append_nil] at hread
  unfold parse
  rw [hread]

/-- **A text determines its value**, up to the signs of zeros. -/
theorem render_injective {j j' : Json} (h : j.render = j'.render) : j.unsigned = j'.unsigned := by
  have hread := parse_render j
  rw [h, parse_render j'] at hread
  exact (Option.some.inj hread).symm

end Json

/-! ## §5. Canonical text -/

/-- `keys.sort()`, carried out on pairs of a key and what belongs to it. -/
def sortByKey {α : Type} (pairs : List (Text × α)) : List (Text × α) := sortOn Prod.fst pairs

theorem sortByKey_map (f : Text × α → β) (pairs : List (Text × α)) :
    sortByKey (pairs.map fun p => (p.1, f p)) = (sortByKey pairs).map fun p => (p.1, f p) := by
  have hkey : ∀ p : Text × α, Prod.fst (p.1, f p) = Prod.fst p := fun _ => rfl
  exact sortOn_map (fun p : Text × α => (p.1, f p)) hkey pairs

namespace Json

mutual

/-- The value with the members of every object in the order of their keys. -/
def sorted : Json → Json
  | .null => .null
  | .bool b => .bool b
  | .number n => .number n
  | .string s => .string s
  | .array items => .array (sortedItems items)
  | .object members => .object (sortByKey (sortedMembers members))

def sortedItems : List Json → List Json
  | [] => []
  | item :: rest => item.sorted :: sortedItems rest

def sortedMembers : List (Text × Json) → List (Text × Json)
  | [] => []
  | (key, value) :: rest => (key, value.sorted) :: sortedMembers rest

end

theorem sortedItems_eq (items : List Json) : sortedItems items = items.map sorted := by
  induction items with
  | nil => rfl
  | cons item rest ih => rw [sortedItems, ih, map_cons]

theorem sortedMembers_eq (members : List (Text × Json)) :
    sortedMembers members = members.map fun m => (m.1, m.2.sorted) := by
  induction members with
  | nil => rfl
  | cons m rest ih => rw [sortedMembers, ih, map_cons]

/-- The same value: members in any order, and numbers as `===` compares them. -/
def Same (j j' : Json) : Prop := j.sorted.unsigned = j'.sorted.unsigned

/-- The text with the members of every object sorted. -/
def canonical (j : Json) : List Char := j.sorted.render

/-- **A canonical text determines its value.** -/
theorem canonical_inj {j j' : Json} (h : j.canonical = j'.canonical) : j.Same j' :=
  render_injective h

theorem canonical_object (members : List (Text × Json)) : (Json.object members).canonical
      = '{' :: (joinComma ((sortByKey (members.map fun m =>
          (m.1, renderMember (m.1, m.2.sorted)))).map Prod.snd) ++ ['}']) := by
  have hsort := sortByKey_map renderMember (members.map fun m => (m.1, m.2.sorted))
  rw [map_map] at hsort
  unfold canonical
  rw [sorted, render, renderMembers_eq, sortedMembers_eq]
  rw [show (fun m : Text × Json => (m.1, renderMember (m.1, m.2.sorted)))
    = (fun p => (p.1, renderMember p)) ∘ fun m : Text × Json => (m.1, m.2.sorted) from rfl,
    hsort, map_map]
  rfl

theorem canonical_array (items : List Json) :
    (Json.array items).canonical = '[' :: (joinComma (items.map canonical) ++ [']']) := by
  unfold canonical
  rw [sorted, render, renderItems_eq, sortedItems_eq, map_map]
  rfl

theorem canonical_unsigned (j : Json) : j.unsigned.canonical = j.canonical := by
  induction j using induct with
  | null | bool => rfl
  | number n => cases n <;> rfl
  | string => rfl
  | array items ih =>
    rw [unsigned, unsignedItems_eq, canonical_array, canonical_array, map_map]
    have hitems : items.map (canonical ∘ unsigned) = items.map canonical :=
      map_congr_left ih
    rw [hitems]
  | object members ih =>
    rw [unsigned, unsignedMembers_eq, canonical_object, canonical_object, map_map]
    have hmembers : ∀ m ∈ members, ((fun m : Text × Json =>
        (m.1, renderMember (m.1, m.2.sorted))) ∘ fun m => (m.1, m.2.unsigned)) m
          = (m.1, renderMember (m.1, m.2.sorted)) := by
      intro m hm
      have hvalue := ih m hm
      unfold canonical at hvalue
      unfold renderMember
      dsimp only [Function.comp]
      rw [hvalue]
    rw [map_congr_left hmembers]

/-! ## §6. Equal up to the order of members -/

/-- The same value, the members of every object in any order. -/
inductive Reordered : Json → Json → Prop
  | null : Reordered .null .null
  | bool (b : Bool) : Reordered (.bool b) (.bool b)
  | number (n : JsonNum) : Reordered (.number n) (.number n)
  | string (s : Text) : Reordered (.string s) (.string s)
  | array {items items' : List Json} :
      List.Forall₂ Reordered items items' → Reordered (.array items) (.array items')
  /-- The members in another order, then each by its like. -/
  | object {members middle members' : List (Text × Json)} :
      members.map Prod.fst = middle.map Prod.fst →
      List.Forall₂ Reordered (members.map Prod.snd) (middle.map Prod.snd) →
      middle.Perm members' → Reordered (.object members) (.object members')

mutual

/-- No object names a key twice, and no number is `-0`. -/
def Proper : Json → Prop
  | .number n => n ≠ .negZero
  | .array items => ProperItems items
  | .object members => (members.map Prod.fst).Nodup ∧ ProperMembers members
  | _ => True

def ProperItems : List Json → Prop
  | [] => True
  | item :: rest => item.Proper ∧ ProperItems rest

def ProperMembers : List (Text × Json) → Prop
  | [] => True
  | (_, value) :: rest => value.Proper ∧ ProperMembers rest

end

theorem properItems_iff (items : List Json) : ProperItems items ↔ ∀ item ∈ items, item.Proper := by
  induction items with
  | nil => simp [ProperItems]
  | cons item rest ih => simp [ProperItems, ih]

theorem properMembers_iff (members : List (Text × Json)) :
    ProperMembers members ↔ ∀ m ∈ members, m.2.Proper := by
  induction members with
  | nil => simp [ProperMembers]
  | cons m rest ih => rw [ProperMembers, ih, forall_mem_cons]

theorem Proper.unsigned {j : Json} (h : j.Proper) : j.unsigned = j := by
  induction j using Json.induct with
  | null | bool => rfl
  | number n =>
    cases n with
    | negZero => exact absurd rfl h
    | decimal => rfl
  | string => rfl
  | array items ih =>
    have hitems : items.map Json.unsigned = items.map id :=
      map_congr_left fun x hx => ih x hx ((properItems_iff items).mp h x hx)
    rw [Json.unsigned, unsignedItems_eq, hitems, map_id]
  | object members ih =>
    have hmembers : (members.map fun m => (m.1, m.2.unsigned)) = members.map id := by
      refine map_congr_left fun m hm => ?_
      show (m.1, m.2.unsigned) = (m.1, m.2)
      rw [ih m hm ((properMembers_iff members).mp h.2 m hm)]
    rw [Json.unsigned, unsignedMembers_eq, hmembers, map_id]

theorem sorted_members (members : List (Text × Json)) : (Json.object members).sorted
      = .object (sortByKey (members.map fun m => (m.1, m.2.sorted))) := by
  rw [sorted, sortedMembers_eq]

theorem unsigned_sorted (j : Json) : j.unsigned.sorted = j.sorted.unsigned := by
  induction j using induct with
  | null | bool | number | string => rfl
  | array items ih =>
    rw [unsigned, unsignedItems_eq, sorted, sortedItems_eq, sorted, sortedItems_eq, unsigned,
      unsignedItems_eq, map_map, map_map]
    exact congrArg Json.array (map_congr_left ih)
  | object members ih =>
    have hsort := sortByKey_map (fun m : Text × Json => m.2.unsigned)
      (members.map fun m => (m.1, m.2.sorted))
    rw [unsigned, unsignedMembers_eq, sorted_members, sorted_members, unsigned,
      unsignedMembers_eq, ← hsort, map_map, map_map]
    refine congrArg Json.object (congrArg sortByKey (map_congr_left fun m hm => ?_))
    show (m.1, m.2.unsigned.sorted) = (m.1, m.2.sorted.unsigned)
    rw [ih m hm]

variable {R : α → α → Prop}

theorem forall₂_of_map_eq {f : α → β} {l l' : List α}
    (h : ∀ x ∈ l, ∀ y, f x = f y → R x y) (heq : l.map f = l'.map f) : List.Forall₂ R l l' := by
  induction l generalizing l' with
  | nil =>
    cases l' with
    | nil => exact .nil
    | cons => cases heq
  | cons x l ih =>
    cases l' with
    | nil => cases heq
    | cons y =>
      rw [map_cons, map_cons, List.cons.injEq] at heq
      refine .cons (h x mem_cons_self y heq.1) ?_
      exact ih (fun z hz => h z (mem_cons_of_mem x hz)) heq.2

variable {a b : Json}

theorem Reordered.of_sorted (h : a.sorted = b.sorted) : Reordered a b := by
  induction a using induct generalizing b with
  | null => cases b <;> first | exact .null | cases h
  | bool x =>
    cases b with
    | bool =>
      cases h
      exact .bool x
    | _ => cases h
  | number n =>
    cases b with
    | number =>
      cases h
      exact .number n
    | _ => cases h
  | string s =>
    cases b with
    | string =>
      cases h
      exact .string s
    | _ => cases h
  | array items ih =>
    cases b with
    | array =>
      rw [sorted, sorted, sortedItems_eq, sortedItems_eq] at h
      exact .array (forall₂_of_map_eq (fun x hx y heq => ih x hx heq) (Json.array.inj h))
    | _ => cases h
  | object members ih =>
    cases b with
    | object members' =>
      rw [sorted_members, sorted_members] at h
      -- the sorted lists are permutations of what they sort
      have hperm : (members.map fun m => (m.1, m.2.sorted)).Perm
          (members'.map fun m => (m.1, m.2.sorted)) := by
        have hleft := sortOn_perm Prod.fst (members.map fun m => (m.1, m.2.sorted))
        have hright := sortOn_perm Prod.fst (members'.map fun m => (m.1, m.2.sorted))
        have hsame : sortByKey (members.map fun m => (m.1, m.2.sorted))
            = sortByKey (members'.map fun m => (m.1, m.2.sorted)) := Json.object.inj h
        unfold sortByKey at hsame
        rw [hsame] at hleft
        exact hleft.symm.trans hright
      have himage : List.Forall₂ (fun p (m : Text × Json) => p = (m.1, m.2.sorted))
          (members'.map fun m => (m.1, m.2.sorted)) members' := by
        rw [forall₂_map_left_iff]
        exact forall₂_same.mpr fun _ _ => rfl
      obtain ⟨middle, hmiddle, hrest⟩ := perm_comp_forall₂ hperm himage
      rw [forall₂_map_left_iff] at hmiddle
      refine @Reordered.object members middle members' ?_ ?_ hrest
      · clear ih h hperm himage hrest
        induction hmiddle with
        | nil => rfl
        | cons hhead _ ihtail =>
          rw [map_cons, map_cons, ihtail, (Prod.mk.inj hhead).1]
      · clear h hperm himage hrest
        induction hmiddle with
        | nil => exact .nil
        | cons hhead _ ihtail =>
          refine .cons (ih _ mem_cons_self (Prod.mk.inj hhead).2) ?_
          exact ihtail fun m hm => ih m (mem_cons_of_mem _ hm)
    | _ => cases h

theorem map_eq_of_forall₂ {f : α → β} {l l' : List α} (h : List.Forall₂ R l l')
    (hf : ∀ x ∈ l, ∀ y ∈ l', R x y → f x = f y) : l.map f = l'.map f := by
  induction h with
  | nil => rfl
  | @cons x y l l' hxy _ ih =>
    rw [map_cons, map_cons, hf x mem_cons_self y mem_cons_self hxy]
    rw [ih fun u hu v hv => hf u (mem_cons_of_mem x hu) v (mem_cons_of_mem y hv)]

/-- **Values that are equal up to the order of members sort alike.** -/
theorem Reordered.sorted_eq (h : Reordered a b) (ha : a.Proper) (hb : b.Proper) :
    a.sorted = b.sorted := by
  induction a using induct generalizing b with
  | null => cases h with | null => rfl
  | bool => cases h with | bool => rfl
  | number => cases h with | number => rfl
  | string => cases h with | string => rfl
  | array items ih =>
    cases h with
    | @array _ items' hitems =>
      rw [sorted, sorted, sortedItems_eq, sortedItems_eq]
      refine congrArg Json.array (map_eq_of_forall₂ hitems fun x hx y hy hxy => ?_)
      exact ih x hx hxy ((properItems_iff items).mp ha x hx) ((properItems_iff items').mp hb y hy)
  | object members ih =>
    cases h with
    | @object _ middle members' hkeys hvalues hperm =>
      have hmiddle : (members.map fun m => (m.1, m.2.sorted))
          = middle.map fun m => (m.1, m.2.sorted) := by
        have hsorted : (members.map Prod.snd).map sorted = (middle.map Prod.snd).map sorted := by
          refine map_eq_of_forall₂ hvalues fun x hx y hy hxy => ?_
          obtain ⟨m, hm, rfl⟩ := mem_map.mp hx
          obtain ⟨m', hm', rfl⟩ := mem_map.mp hy
          refine ih m hm hxy ((properMembers_iff members).mp ha.2 m hm) ?_
          exact (properMembers_iff members').mp hb.2 m' (hperm.subset hm')
        have hzip : ∀ l : List (Text × Json), (l.map fun m => (m.1, m.2.sorted))
            = (l.map Prod.fst).zip ((l.map Prod.snd).map sorted) := by
          intro l
          induction l with
          | nil => rfl
          | cons m l ihl => simp [ihl]
        rw [hzip members, hzip middle, hkeys, hsorted]
      have hfst : ∀ l : List (Text × Json),
          (l.map fun m => (m.1, m.2.sorted)).map Prod.fst = l.map Prod.fst := by
        intro l
        rw [map_map]
        rfl
      rw [sorted_members, sorted_members, hmiddle]
      refine congrArg Json.object (sortOn_eq ?_ ?_ fun m => ?_)
      · rw [hfst, ← hkeys]
        exact ha.1
      · rw [hfst]
        exact hb.1
      · exact (hperm.map _).mem_iff

/-- **Canonical text is a canonical, injective encoding.** -/
theorem canonical_eq_iff (ha : a.Proper) (hb : b.Proper) :
    a.canonical = b.canonical ↔ Reordered a b := by
  constructor
  · intro h
    have hsame := render_injective h
    rw [← unsigned_sorted, ← unsigned_sorted, ha.unsigned, hb.unsigned] at hsame
    exact Reordered.of_sorted hsame
  · intro h
    unfold canonical
    rw [h.sorted_eq ha hb]

end Json

end Motebit.Lib
