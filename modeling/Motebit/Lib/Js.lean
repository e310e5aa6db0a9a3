/-
  Motebit.Lib.Js — A FEW JAVASCRIPT BUILT-INS, on lists of characters.
-/

import Mathlib.Tactic.Common

namespace Motebit.Lib.Js

/-- The white space and line terminators `trim` removes. -/
def isWhitespace (c : Char) : Bool :=
  c.val ∈ [0x09, 0x0A, 0x0B, 0x0C, 0x0D, 0x20, 0xA0, 0x1680, 0x2028, 0x2029, 0x202F, 0x205F,
    0x3000, 0xFEFF] || (0x2000 ≤ c.val && c.val ≤ 0x200A)

def trim (s : List Char) : List Char :=
  ((s.dropWhile isWhitespace).reverse.dropWhile isWhitespace).reverse

def split (separator : Char) (text : List Char) : List (List Char) :=
  go [] text
where
  go (part : List Char) : List Char → List (List Char)
    | [] => [part.reverse]
    | c :: rest => if c = separator then part.reverse :: go [] rest else go (c :: part) rest

/-- The names every plain object inherits from `Object.prototype`. -/
def objectPrototype : List String :=
  ["__defineGetter__", "__defineSetter__", "__lookupGetter__", "__lookupSetter__", "__proto__",
    "constructor", "hasOwnProperty", "isPrototypeOf", "propertyIsEnumerable", "toLocaleString",
    "toString", "valueOf"]

end Motebit.Lib.Js
