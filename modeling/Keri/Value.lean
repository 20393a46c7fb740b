/-
**JSON values.**

The `serde_json::Value` the repository keeps a parsed body in.  The workspace enables
`preserve_order`, so an object is a map that remembers the order its keys were inserted in: a
parsed event re-serializes with its fields where they were.

* `Keri.Value` — the values; `Keri.Value.eqb` decides equality;
* `Keri.Fields.get`, `Keri.Fields.insert` — lookup and insertion in an object, the second in place
  when the key is already there;
* `Keri.Value.text` — the text of a value in an error;
* `Keri.Fields.insert_cancel` — **overwriting one field hides nothing else**: two objects that agree
  at a key and become equal once it is overwritten were equal.
-/

import Keri.Text

set_option relaxedAutoImplicit false
set_option autoImplicit false

namespace Keri

/-- A JSON number: a `u64`, a negative `i64` given by `-(n + 1)`, or the bits of an `f64`. -/
inductive Number where
  | posInt (n : ℕ)
  | negInt (n : ℕ)
  | float (bits : UInt64)
  deriving DecidableEq, Repr

/-- A JSON value. -/
inductive Value where
  | null
  | bool (b : Bool)
  | number (n : Number)
  | string (s : String)
  | array (xs : List Value)
  | object (fields : List (String × Value))
  deriving Repr

/-- The fields of an object, in insertion order. -/
abbrev Fields := List (String × Value)

namespace Value

/-! ### Equality -/

mutual

/-- Equality of values. -/
def eqb : Value → Value → Bool
  | .null, .null => true
  | .bool a, .bool b => a == b
  | .number a, .number b => decide (a = b)
  | .string a, .string b => decide (a = b)
  | .array a, .array b => eqbList a b
  | .object a, .object b => eqbFields a b
  | _, _ => false

/-- Equality of the elements of arrays. -/
def eqbList : List Value → List Value → Bool
  | [], [] => true
  | a :: as, b :: bs => eqb a b && eqbList as bs
  | _, _ => false

/-- Equality of the fields of objects, order included. -/
def eqbFields : List (String × Value) → List (String × Value) → Bool
  | [], [] => true
  | (k, a) :: as, (l, b) :: bs => decide (k = l) && eqb a b && eqbFields as bs
  | _, _ => false

end

mutual

theorem eqb_iff : (a b : Value) → (eqb a b = true ↔ a = b)
  | .null, b => by cases b <;> simp [eqb]
  | .bool _, b => by cases b <;> simp [eqb]
  | .number _, b => by cases b <;> simp [eqb]
  | .string _, b => by cases b <;> simp [eqb]
  | .array as, b => by cases b <;> simp [eqb, eqbList_iff as]
  | .object as, b => by cases b <;> simp [eqb, eqbFields_iff as]

theorem eqbList_iff : (as bs : List Value) → (eqbList as bs = true ↔ as = bs)
  | [], bs => by cases bs <;> simp [eqbList]
  | a :: as, bs => by cases bs <;> simp [eqbList, eqb_iff a, eqbList_iff as]

theorem eqbFields_iff : (as bs : List (String × Value)) → (eqbFields as bs = true ↔ as = bs)
  | [], bs => by cases bs <;> simp [eqbFields]
  | (k, a) :: as, bs => by
      cases bs with
      | nil => simp [eqbFields]
      | cons b bs => simp [eqbFields, eqb_iff a, eqbFields_iff as, Prod.ext_iff]

end

instance : DecidableEq Value := fun a b => decidable_of_iff _ (eqb_iff a b)

/-! ### Views -/

/-- `Value::as_str`. -/
def asStr : Value → Option String
  | .string s => some s
  | _ => none

/-- `Value::as_array`. -/
def asArray : Value → Option (List Value)
  | .array xs => some xs
  | _ => none

/-- `Value::as_object`. -/
def asObject : Value → Option Fields
  | .object fs => some fs
  | _ => none

@[simp] theorem asStr_eq_some {v : Value} {s : String} : v.asStr = some s ↔ v = .string s := by
  cases v <;> simp [asStr]

@[simp] theorem asArray_eq_some {v : Value} {xs : List Value} :
    v.asArray = some xs ↔ v = .array xs := by
  cases v <;> simp [asArray]

@[simp] theorem asObject_eq_some {v : Value} {fs : Fields} :
    v.asObject = some fs ↔ v = .object fs := by
  cases v <;> simp [asObject]

end Value

/-! ### Objects -/

namespace Fields

/-- The value of a key. -/
def get (k : String) : Fields → Option Value
  | [] => none
  | (k', v) :: fs => if k' = k then some v else get k fs

/-- `Map::insert` with `preserve_order`: a key that is there keeps its place, a new one goes
last. -/
def insert (k : String) (v : Value) : Fields → Fields
  | [] => [(k, v)]
  | (k', v') :: fs => if k' = k then (k, v) :: fs else (k', v') :: insert k v fs

@[simp] theorem get_insert_self (k : String) (v : Value) (fs : Fields) :
    get k (insert k v fs) = some v := by
  induction fs with
  | nil => simp [insert, get]
  | cons f fs ih =>
      unfold insert
      split
      · simp [get]
      · rename_i h
        simp [get, h, ih]

theorem get_insert_of_ne {k k' : String} (h : k' ≠ k) (v : Value) (fs : Fields) :
    get k' (insert k v fs) = get k' fs := by
  induction fs with
  | nil => simp [insert, get, Ne.symm h]
  | cons f fs ih =>
      unfold insert
      split
      · rename_i hk
        simp [get, hk, Ne.symm h]
      · simp [get, ih]

/-- The second value of a key stays. -/
theorem insert_insert_self (k : String) (v w : Value) (fs : Fields) :
    insert k v (insert k w fs) = insert k v fs := by
  induction fs with
  | nil => simp [insert]
  | cons f fs ih =>
      obtain ⟨kf, vf⟩ := f
      by_cases hk : kf = k
      · simp [insert, hk]
      · simp [insert, hk, ih]

/-- Putting a value where it is changes nothing. -/
theorem insert_of_get {k : String} {v : Value} {fs : Fields} (h : get k fs = some v) :
    insert k v fs = fs := by
  induction fs with
  | nil => cases h
  | cons f fs ih =>
      obtain ⟨kf, vf⟩ := f
      by_cases hk : kf = k
      · simp only [get, hk, if_true, Option.some_inj] at h
        simp [insert, hk, h]
      · simp only [get, hk, if_false] at h
        simp [insert, hk, ih h]

/-- A key that is there is overwritten before or after another one is. -/
theorem insert_comm {k l : String} (hne : k ≠ l) {fs : Fields} (hk : (get k fs).isSome)
    (v w : Value) : insert k v (insert l w fs) = insert l w (insert k v fs) := by
  induction fs with
  | nil => cases hk
  | cons f fs ih =>
      obtain ⟨kf, vf⟩ := f
      by_cases hkf : kf = k
      · simp [insert, hkf, hne]
      · simp only [get, hkf, if_false] at hk
        by_cases hlf : kf = l
        · have hlk : l ≠ k := hne.symm
          simp [insert, hlf, hlk]
        · simp [insert, hkf, hlf, ih hk]

/-- **Overwriting one field hides nothing else.** -/
theorem insert_cancel {k : String} {v x : Value} {as bs : Fields} (ha : get k as = some x)
    (hb : get k bs = some x) (h : insert k v as = insert k v bs) : as = bs := by
  -- the two lists are walked together; they can only differ at the first occurrence of `k`
  induction as generalizing bs with
  | nil => cases ha
  | cons a as ih =>
      cases bs with
      | nil => cases hb
      | cons b bs =>
          obtain ⟨ka, va⟩ := a
          obtain ⟨kb, vb⟩ := b
          simp only [get] at ha hb
          simp only [insert] at h
          by_cases hka : ka = k <;> by_cases hkb : kb = k
          · simp only [hka, hkb, if_true, Option.some_inj, List.cons.injEq, true_and] at ha hb h
            simp [hka, hkb, ha, hb, h]
          · simp only [hka, hkb, if_true, if_false, List.cons.injEq, Prod.mk.injEq] at h
            exact absurd h.1.1.symm hkb
          · simp only [hka, hkb, if_true, if_false, List.cons.injEq, Prod.mk.injEq] at h
            exact h.1.1.elim
          · simp only [hka, hkb, if_false, List.cons.injEq] at ha hb h
            rw [h.1, ih ha hb h.2]

end Fields

/-- `Value::get` with a field name. -/
def Value.get (v : Value) (k : String) : Option Value := v.asObject.bind (Fields.get k)

@[simp] theorem Value.get_object (fs : Fields) (k : String) :
    (Value.object fs).get k = Fields.get k fs := rfl

/-! ### Display -/

namespace Number

/-- The first decimal `d * 10 ^ k`, from the exponent `k` downwards, that lies between the ends `lo`
and `hi` of an interval, and of two the closer one to `value`; all three are fractions over `den`.
The ends count when `closed`. -/
def shortest (closed : Bool) (lo value hi den : ℕ) : ℕ → ℤ → ℕ × ℤ
  | 0, k => (0, k)
  | fuel + 1, k =>
      let scale := if k < 0 then 10 ^ k.natAbs else 1
      let unit := if k < 0 then den else den * 10 ^ k.natAbs
      let inside := fun d : ℕ => d ≠ 0 ∧
        (lo * scale < d * unit ∨ closed ∧ lo * scale = d * unit) ∧
        (d * unit < hi * scale ∨ closed ∧ d * unit = hi * scale)
      let below := value * scale / unit
      let rest := 2 * (value * scale % unit)
      let down := inside below ∧ (¬ inside (below + 1) ∨ rest < unit ∨
        rest = unit ∧ below % 2 = 0)
      if down then (below, k)
      else if inside (below + 1) then (below + 1, k)
      else shortest closed lo value hi den fuel (k - 1)

/-- The digits and the exponent of a positive `f64`: of the decimals that are read back as it, one
with the fewest digits. -/
def decimalOf (exponent fraction : ℕ) : ℕ × ℤ :=
  let mantissa := if exponent = 0 then fraction else 2 ^ 52 + fraction
  let power : ℤ := (if exponent = 0 then 1 else (exponent : ℤ)) - 1077
  let scale := if power < 0 then 1 else 2 ^ power.natAbs
  let den := if power < 0 then 2 ^ power.natAbs else 1
  -- the next float below is half as far at a power of two
  let below := if fraction = 0 ∧ 1 < exponent then 1 else 2
  shortest (mantissa % 2 == 0) ((4 * mantissa - below) * scale) (4 * mantissa * scale)
    ((4 * mantissa + 2) * scale) den 650 310

/-- The text of a decimal: with a point if it has up to sixteen digits before it or four zeros
behind it, and else with an exponent. -/
def decimalText (digits : List Char) (k : ℤ) : String :=
  let point : ℤ := digits.length + k
  let zeros := fun n : ℤ => List.replicate n.natAbs '0'
  String.ofList <|
    if 0 ≤ k ∧ point ≤ 16 then digits ++ zeros k ++ ['.', '0']
    else if 0 < point ∧ point ≤ 16 then
      digits.take point.natAbs ++ '.' :: digits.drop point.natAbs
    else if -5 < point ∧ point ≤ 0 then '0' :: '.' :: zeros point ++ digits
    else
      (if digits.length = 1 then digits else digits.take 1 ++ '.' :: digits.drop 1) ++
        'e' :: (if point - 1 < 0 then ['-'] else []) ++ Nat.toDigits 10 (point - 1).natAbs

/-- The `{}` format of a JSON number. -/
def text : Number → String
  | .posInt n => decimal n
  | .negInt n => "-" ++ decimal (n + 1)
  | .float bits =>
      let sign := if 2 ^ 63 ≤ bits.toNat then "-" else ""
      let exponent := bits.toNat / 2 ^ 52 % 2 ^ 11
      let fraction := bits.toNat % 2 ^ 52
      if exponent = 0 ∧ fraction = 0 then sign ++ "0.0"
      else
        let (digits, k) := decimalOf exponent fraction
        sign ++ decimalText (Nat.toDigits 10 digits) k

example : text (.float 0x3FF8000000000000) = "1.5" := by decide +kernel

example : text (.float 0xBFB999999999999A) = "-0.1" := by decide +kernel

example : text (.float 0x54B249AD2594C37D) = "1e100" := by decide +kernel

end Number

/-- A character of a JSON string. -/
def escapeChar (c : Char) : String :=
  let n := c.toNat
  if n = 34 then "\\\"" else if n = 92 then "\\\\" else if n = 8 then "\\b"
  else if n = 9 then "\\t" else if n = 10 then "\\n" else if n = 12 then "\\f"
  else if n = 13 then "\\r" else if n < 32 then "\\u00" ++ zeroPad 2 (hexLower n)
  else String.singleton c

/-- A JSON string. -/
def jsonText (s : String) : String := "\"" ++ "".intercalate (s.toList.map escapeChar) ++ "\""

namespace Value

mutual

/-- The `{}` format of a JSON value, which is compact JSON. -/
def text : Value → String
  | .null => "null"
  | .bool b => if b then "true" else "false"
  | .number n => n.text
  | .string s => jsonText s
  | .array xs => "[" ++ ",".intercalate (textItems xs) ++ "]"
  | .object fs => "\x7b" ++ ",".intercalate (textFields fs) ++ "\x7d"

/-- The texts of the elements of an array. -/
def textItems : List Value → List String
  | [] => []
  | x :: xs => text x :: textItems xs

/-- The texts of the fields of an object. -/
def textFields : List (String × Value) → List String
  | [] => []
  | (k, v) :: fs => (jsonText k ++ ":" ++ text v) :: textFields fs

end

end Value
end Keri
