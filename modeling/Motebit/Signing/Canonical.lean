/-
  Motebit.Signing.Canonical — CANONICAL JSON, the bytes every signature is made over.

  Translated from `packages/crypto/src/signing.ts`.  Unlike the writer of the audit chain this
  one leaves out a member whose value is `undefined`.  The signers go through
  `canonicalJsonForSigning`, which refuses text that has no UTF-8 form.

  Main results: `canonicalJson_ofJson`, `canonicalJson_addsUndefined`, `canonical_encoding`.
-/

import Motebit.Audit.Chain

namespace Motebit.Signing

open Motebit.Lib List
open Motebit.Audit (JsValue BIGINT_ERROR ofJson ofJsonItems ofJsonMembers txt)

/-! ## §1. The writer -/

def isUndefined : JsValue → Bool
  | .undefined => true
  | _ => false

mutual

/-- `canonicalJson`; an error is a throw, and `none` is the `undefined` that `JSON.stringify`
    answers.  The members are rendered before they are sorted. -/
def canonicalJson : JsValue → Except String (Option (List Char))
  | .undefined => .ok none
  | .null => .ok (some "null".toList)
  | .bool b => .ok (some (Json.bool b).render)
  | .number n => .ok (some n.text)
  | .nonFinite => .ok (some "null".toList)
  | .bigint _ => .error BIGINT_ERROR
  | .callable => .ok none
  | .string s => .ok (some (quote s))
  -- `map` leaves a hole a hole
  | .hole => .ok none
  | .array items => (canonicalItems items).map fun parts =>
      some ('[' :: (joinComma parts ++ [']']))
  | .object members => (canonicalMembers members).map fun parts =>
      some ('{' :: (joinComma ((sortByKey parts).map Prod.snd) ++ ['}']))
  -- the own members, whatever `toJSON` says
  | .exotic members _ => (canonicalMembers members).map fun parts =>
      some ('{' :: (joinComma ((sortByKey parts).map Prod.snd) ++ ['}']))

/-- `join` writes `undefined` and a hole as nothing. -/
def canonicalItems : List JsValue → Except String (List (List Char))
  | [] => .ok []
  | item :: rest => do
    let part ← canonicalJson item
    let parts ← canonicalItems rest
    .ok (part.getD [] :: parts)

/-- The entries; `+` writes the `undefined` of a function out. -/
def canonicalMembers : List (Text × JsValue) → Except String (List (Text × List Char))
  | [] => .ok []
  | (key, value) :: rest =>
    if isUndefined value = true then canonicalMembers rest
    else do
      let part ← canonicalJson value
      let parts ← canonicalMembers rest
      .ok ((key, quote key ++ ':' :: part.getD "undefined".toList) :: parts)

end

/-! ## §2. Text that has no UTF-8 form -/

def unpairedAfter (before : Option CodeUnit) : Text → Bool
  | [] => false
  | u :: rest =>
    (u.isHigh && !(rest.head?.any CodeUnit.isLow)) || (u.isLow && !(before.any CodeUnit.isHigh)) ||
      unpairedAfter (some u) rest

def unpairedSurrogate (s : Text) : Bool := unpairedAfter none s

def pathAt (path place : List Char) : List Char := path ++ '[' :: (place ++ [']'])

mutual

def findUnpairedSurrogate : JsValue → List Char → Option (List Char)
  | .string s, path => if unpairedSurrogate s = true then some path else none
  | .array items, path => findInItems items path 0
  | .object members, path => findInMembers members path
  | .exotic members _, path => findInMembers members path
  | _, _ => none

def findInItems : List JsValue → List Char → Nat → Option (List Char)
  | [], _, _ => none
  | item :: rest, path, i =>
    (findUnpairedSurrogate item (pathAt path (Nat.repr i).toList)) <|> findInItems rest path (i + 1)

def findInMembers : List (Text × JsValue) → List Char → Option (List Char)
  | [], _ => none
  | (key, value) :: rest, path =>
    if isUndefined value = true then findInMembers rest path
    else if unpairedSurrogate key = true then
      some (pathAt path (quote key) ++ " (object key)".toList)
    else findUnpairedSurrogate value (pathAt path (quote key)) <|> findInMembers rest path

end

def hasUnpairedSurrogate (value : JsValue) : Bool := (findUnpairedSurrogate value ['$']).isSome

/-- Why signing throws. -/
inductive SigningError
  /-- `UnpairedSurrogateError`. -/
  | unpairedSurrogate (path : List Char)
  | typeError (message : String)
  deriving DecidableEq

def canonicalJsonForSigning (obj : JsValue) : Except SigningError (Option (List Char)) :=
  match findUnpairedSurrogate obj ['$'] with
  | some hit => .error (.unpairedSurrogate hit)
  | none => (canonicalJson obj).mapError .typeError

/-! ## §3. On JSON data -/

theorem isUndefined_ofJson (j : Json) : isUndefined (ofJson j) = false := by
  cases j <;> rfl

/-- **Canonical JSON of JSON data**: the text with its members sorted. -/
theorem canonicalJson_ofJson (j : Json) : canonicalJson (ofJson j) = .ok (some j.canonical) := by
  induction j using Json.induct with
  | null | bool | number | string => rfl
  | array items ih =>
    have hitems : canonicalItems (ofJsonItems items) = .ok (items.map Json.canonical) := by
      induction items with
      | nil => rfl
      | cons item rest ihrest =>
        rw [ofJsonItems, canonicalItems, ih item mem_cons_self,
          ihrest fun x hx => ih x (mem_cons_of_mem item hx)]
        rfl
    show (canonicalItems (ofJsonItems items)).map _ = _
    rw [hitems, Json.canonical_array]
    rfl
  | object members ih =>
    have hmembers : canonicalMembers (ofJsonMembers members)
        = .ok (members.map fun m => (m.1, Json.renderMember (m.1, m.2.sorted))) := by
      induction members with
      | nil => rfl
      | cons m rest ihrest =>
        rw [ofJsonMembers, canonicalMembers, if_neg (by rw [isUndefined_ofJson]; decide),
          ih m mem_cons_self, ihrest fun x hx => ih x (mem_cons_of_mem m hx)]
        rfl
    show (canonicalMembers (ofJsonMembers members)).map _ = _
    rw [hmembers, Json.canonical_object]
    rfl

/-! ## §4. Members whose value is undefined -/

/-- The second value is the first with one member more, whose value is `undefined`, somewhere
    inside it. -/
inductive AddsUndefined : JsValue → JsValue → Prop
  | here (before after : List (Text × JsValue)) (key : Text) :
      AddsUndefined (.object (before ++ after)) (.object (before ++ (key, .undefined) :: after))
  | item (before after : List JsValue) {v w : JsValue} :
      AddsUndefined v w → AddsUndefined (.array (before ++ v :: after)) (.array (before ++ w :: after))
  | member (before after : List (Text × JsValue)) (key : Text) {v w : JsValue} :
      AddsUndefined v w →
      AddsUndefined (.object (before ++ (key, v) :: after)) (.object (before ++ (key, w) :: after))

theorem canonicalMembers_append (before : List (Text × JsValue))
    {after after' : List (Text × JsValue)} (h : canonicalMembers after = canonicalMembers after') :
    canonicalMembers (before ++ after) = canonicalMembers (before ++ after') := by
  induction before with
  | nil => exact h
  | cons m before ih => rw [cons_append, cons_append, canonicalMembers, canonicalMembers, ih]

theorem canonicalItems_append (before : List JsValue) {after after' : List JsValue}
    (h : canonicalItems after = canonicalItems after') :
    canonicalItems (before ++ after) = canonicalItems (before ++ after') := by
  induction before with
  | nil => exact h
  | cons item before ih => rw [cons_append, cons_append, canonicalItems, canonicalItems, ih]

theorem AddsUndefined.defined {v w : JsValue} (h : AddsUndefined v w) :
    isUndefined v = false ∧ isUndefined w = false := by
  cases h <;> exact ⟨rfl, rfl⟩

/-- **A member whose value is `undefined` changes nothing**, wherever it is added. -/
theorem canonicalJson_addsUndefined {v w : JsValue} (h : AddsUndefined v w) :
    canonicalJson w = canonicalJson v := by
  induction h with
  | here before after key =>
    have hskip : canonicalMembers ((key, .undefined) :: after) = canonicalMembers after := by
      rw [canonicalMembers, if_pos (show isUndefined .undefined = true from rfl)]
    show (canonicalMembers (before ++ (key, .undefined) :: after)).map _ = _
    rw [canonicalMembers_append before hskip]
    rfl
  | @item before after v w hadds ih =>
    have hhead : canonicalItems (w :: after) = canonicalItems (v :: after) := by
      rw [canonicalItems, canonicalItems, ih]
    show (canonicalItems (before ++ w :: after)).map _ = _
    rw [canonicalItems_append before hhead]
    rfl
  | @member before after key v w hadds ih =>
    have hhead : canonicalMembers ((key, w) :: after) = canonicalMembers ((key, v) :: after) := by
      rw [canonicalMembers, canonicalMembers, hadds.defined.1, hadds.defined.2, ih]
    show (canonicalMembers (before ++ (key, w) :: after)).map _ = _
    rw [canonicalMembers_append before hhead]
    rfl

/-! ## §5. The encoding -/

/-- **Canonical JSON is a canonical, injective encoding**: JSON values have one text exactly
    where they are equal up to the order of members, and a member whose value is `undefined`
    changes nothing. -/
theorem canonical_encoding :
    (∀ a b : Json, a.Proper → b.Proper →
      (canonicalJson (ofJson a) = canonicalJson (ofJson b) ↔ a.Reordered b)) ∧
    ∀ v w : JsValue, AddsUndefined v w → canonicalJson w = canonicalJson v := by
  refine ⟨?_, fun v w h => canonicalJson_addsUndefined h⟩
  intro a b ha hb
  rw [canonicalJson_ofJson, canonicalJson_ofJson, Except.ok.injEq, Option.some.injEq]
  exact Json.canonical_eq_iff ha hb

/-- An object of two members, in both orders, and with a third that is `undefined`. -/
theorem canonical_encoding_two : Json.Reordered (.object [(txt "a", .null), (txt "b", .bool true)])
        (.object [(txt "b", .bool true), (txt "a", .null)]) ∧
      canonicalJson (.object [(txt "a", .null), (txt "c", .undefined), (txt "b", .bool true)])
        = canonicalJson (.object [(txt "a", .null), (txt "b", .bool true)]) := by
  constructor
  · refine (canonical_encoding.1 _ _ ?_ ?_).mp (by rfl)
    · exact ⟨by decide, trivial, trivial, trivial⟩
    · exact ⟨by decide, trivial, trivial, trivial⟩
  · exact canonical_encoding.2 _ _ (.here [(txt "a", .null)] [(txt "b", .bool true)] (txt "c"))

end Motebit.Signing
