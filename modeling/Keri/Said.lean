/-
**Self-addressing identifiers.**

A SAID is the digest of a body that contains it: the `d` field, and the `i` field when it equals
`d`, are replaced by a dummy of the digest's length, the result is serialized and digested, and the
digest is put where the dummies were.

* `Keri.serializeSad` — serialization of a value in a kind;
* `Keri.dummied` — the fields that are serialized and digested;
* `Keri.computeSaid`, `Keri.verifySaid` — computing and checking a SAID;
* `Keri.verifySaid_eq_ok` — **what a verified SAID is**: the digest of the dummied body;
* `Keri.get_fillSaid_of_ne` — every field but the label and `i` is digested as it stands;
* `Keri.fillSaid_injective` — **the dummied body determines the body**, up to the SAID itself, when
  neither body's `i` is the dummy.
-/

import Keri.Threshold

set_option relaxedAutoImplicit false
set_option autoImplicit false

namespace Keri

open Outcome

variable (X : Externals)

/-- The serializer of a kind, with its errors wrapped as the source wraps them. -/
def Externals.serialize (value : Value) : SerializationKind → Except CoreError Bytes
  | .json => (X.json.toVec value).mapError .json
  | .cbor => (X.cbor.toVec value).mapError fun e => .cbor e.text
  | .msgPack => (X.msgPack.toVec value).mapError fun e => .msgPack e.text

/-- Serialize a body for digesting. -/
def serializeSad (sad : Value) (kind : SerializationKind) : Except CoreError Bytes :=
  X.serialize sad kind

/-- A run of `#` characters. -/
def dummyText (len : ℕ) : String := String.ofList (List.replicate len '#')

/-- Is the body a self-addressing inception, with `i` equal to `d`? -/
def isSelfAddressing (label : String) (obj : Fields) : Bool :=
  if label = "d" then
    match Fields.get "d" obj, Fields.get "i" obj with
    | some d, some i => decide (d = i)
    | _, _ => false
  else false

/-- Put `text` in the label field, and in `i` for a self-addressing inception. -/
def fillSaid (label : String) (selfAddressing : Bool) (text : String) (obj : Fields) : Fields :=
  let obj := Fields.insert label (.string text) obj
  if selfAddressing then Fields.insert "i" (.string text) obj else obj

/-- The fields that are serialized and digested. -/
def dummied (label : String) (len : ℕ) (obj : Fields) : Fields :=
  fillSaid label (isSelfAddressing label obj) (dummyText len) obj

/-- The length of the dummy for a digest code. -/
def dummyLen (code : String) : Except CoreError ℕ := do
  let sizage ← okOr (X.cesr.matterSizage code) (.validation s!"unknown digest code: {code}")
  ensure (sizage.fs ≠ 0)
    (.validation s!"digest code {code} has variable length, cannot compute SAID")
  pure sizage.fs

/-- Compute the SAID of a body, and the body with the SAID filled in. -/
def computeSaid (sad : Value) (label code : String) (kind : SerializationKind) :
    Except CoreError (String × Value) := do
  let obj ← okOr sad.asObject (.validation "SAD must be a JSON object")
  let len ← dummyLen X code
  ensure (Fields.get label obj).isSome (.missingField label)
  let serialized ← serializeSad X (.object (dummied label len obj)) kind
  let said ← (digestQb64 X code serialized).mapError .crypto
  pure (said, .object
    (fillSaid label (isSelfAddressing label obj) said (dummied label len obj)))

/-- Check that the SAID field of a body is its digest. -/
def verifySaid (sad : Value) (label code : String) (kind : SerializationKind) :
    Except CoreError Unit := do
  let obj ← okOr sad.asObject (.validation "SAD must be a JSON object")
  let currentSaid ← okOr ((Fields.get label obj).bind Value.asStr) (.missingField label)
  let (computedSaid, _) ← computeSaid X sad label code kind
  ensure (computedSaid = currentSaid) .saidMismatch

variable {X}

/-- What computing a SAID gives. -/
theorem computeSaid_eq_ok {sad sad' : Value} {label code said : String} {kind : SerializationKind} :
    computeSaid X sad label code kind = .ok (said, sad') ↔
      ∃ obj len bytes, sad = .object obj ∧ dummyLen X code = .ok len ∧
        (Fields.get label obj).isSome ∧
        serializeSad X (.object (dummied label len obj)) kind = .ok bytes ∧
        digestQb64 X code bytes = .ok said ∧
        sad' = .object (fillSaid label (isSelfAddressing label obj) said
          (dummied label len obj)) := by
  simp only [computeSaid, bind_eq_ok, okOr_eq_ok, ensure_eq_ok, mapError_eq_ok, pure_eq_ok,
    Value.asObject_eq_some, Prod.mk.injEq]
  constructor
  · rintro ⟨obj, rfl, len, hlen, -, hlabel, bytes, hbytes, _, hdigest, rfl, rfl⟩
    exact ⟨obj, len, bytes, rfl, hlen, hlabel, hbytes, hdigest, rfl⟩
  · rintro ⟨obj, len, bytes, rfl, hlen, hlabel, hbytes, hdigest, rfl⟩
    exact ⟨obj, rfl, len, hlen, ⟨⟩, hlabel, bytes, hbytes, said, hdigest, rfl, rfl⟩

/-- **A SAID verifies exactly when it is the digest of the dummied body.** -/
theorem verifySaid_eq_ok {sad : Value} {label code : String} {kind : SerializationKind}
    {u : Unit} :
    verifySaid X sad label code kind = .ok u ↔
      ∃ obj said len bytes, sad = .object obj ∧ Fields.get label obj = some (.string said) ∧
        dummyLen X code = .ok len ∧
        serializeSad X (.object (dummied label len obj)) kind = .ok bytes ∧
        digestQb64 X code bytes = .ok said := by
  simp only [verifySaid, bind_eq_ok, okOr_eq_ok, ensure_eq_ok, Value.asObject_eq_some,
    Option.bind_eq_some_iff, Value.asStr_eq_some]
  constructor
  · rintro ⟨obj, rfl, said, ⟨_, hget, rfl⟩, ⟨said', _⟩, hcompute, hsaid⟩
    obtain ⟨_, len, bytes, hobj, hlen, -, hbytes, hdigest, -⟩ := computeSaid_eq_ok.1 hcompute
    obtain rfl := Value.object.inj hobj
    exact ⟨obj, said, len, bytes, rfl, hget, hlen, hbytes, hsaid ▸ hdigest⟩
  · rintro ⟨obj, said, len, bytes, rfl, hget, hlen, hbytes, hdigest⟩
    have hcompute := computeSaid_eq_ok.2
      ⟨obj, len, bytes, rfl, hlen, Option.isSome_of_eq_some hget, hbytes, hdigest, rfl⟩
    exact ⟨obj, rfl, said, ⟨_, hget, rfl⟩, (said, _), hcompute, rfl⟩

/-- A field that is neither the label nor `i` is digested as it stands. -/
theorem get_fillSaid_of_ne {label k : String} (hl : k ≠ label) (hi : k ≠ "i") (sa : Bool)
    (text : String) (obj : Fields) :
    Fields.get k (fillSaid label sa text obj) = Fields.get k obj := by
  unfold fillSaid
  cases sa
  · simp [Fields.get_insert_of_ne hl]
  · simp [Fields.get_insert_of_ne hl, Fields.get_insert_of_ne hi]

/-- Filling in another text hides the first. -/
theorem fillSaid_fillSaid {label : String} {sa : Bool} (hsa : sa = true → label = "d")
    (s t : String) (obj : Fields) :
    fillSaid label sa s (fillSaid label sa t obj) = fillSaid label sa s obj := by
  cases sa with
  | false => simp [fillSaid, Fields.insert_insert_self]
  | true =>
      have hne : label ≠ "i" := by
        rw [hsa rfl]
        decide
      simp only [fillSaid, if_true]
      rw [Fields.insert_comm hne (by simp) (.string s) (.string t), Fields.insert_insert_self,
        Fields.insert_insert_self]

/-- What a self-addressing body has in `i` is what it has in `d`. -/
theorem isSelfAddressing_iff {obj : Fields} {d : Value} (hd : Fields.get "d" obj = some d) :
    isSelfAddressing "d" obj = true ↔ Fields.get "i" obj = some d := by
  unfold isSelfAddressing
  rw [if_pos rfl, hd]
  cases hi : Fields.get "i" obj with
  | none => simp
  | some i => simp [eq_comm]

/-- The `i` field of a dummied body: the dummy when it was the SAID, and else what it was. -/
theorem get_i_dummied {obj : Fields} {d i : Value} (len : ℕ) (hd : Fields.get "d" obj = some d)
    (hi : Fields.get "i" obj = some i) :
    Fields.get "i" (dummied "d" len obj) =
      some (if i = d then .string (dummyText len) else i) := by
  unfold dummied fillSaid
  by_cases h : i = d
  · have hsa : isSelfAddressing "d" obj = true := (isSelfAddressing_iff hd).2 (h ▸ hi)
    simp [hsa, h]
  · have hsa : isSelfAddressing "d" obj = false := by
      rw [← Bool.not_eq_true, isSelfAddressing_iff hd, hi]
      simpa using h
    have hne : "i" ≠ "d" := by decide
    simp [hsa, h, Fields.get_insert_of_ne hne, hi]

/-- A body whose `i` is replaced has its SAID there. -/
theorem isSelfAddressing_eq_true {label : String} {obj : Fields} :
    isSelfAddressing label obj = true ↔
      label = "d" ∧ ∃ v, Fields.get "d" obj = some v ∧ Fields.get "i" obj = some v := by
  unfold isSelfAddressing
  by_cases hl : label = "d"
  · rw [if_pos hl]
    cases hd : Fields.get "d" obj with
    | none => simp
    | some d =>
        cases hi : Fields.get "i" obj with
        | none => simp
        | some i => simp [hl, eq_comm]
  · simp [hl]

/-- **Bodies that are digested alike are alike**, when `i` is replaced in both or in neither. -/
theorem dummied_injective {label : String} {as bs : Fields} {d : Value} {len : ℕ}
    (ha : Fields.get label as = some d) (hb : Fields.get label bs = some d)
    (hsame : isSelfAddressing label as = isSelfAddressing label bs)
    (h : dummied label len as = dummied label len bs) : as = bs := by
  unfold dummied fillSaid at h
  rw [hsame] at h
  cases hself : isSelfAddressing label bs with
  | false =>
      rw [hself] at h
      exact Fields.insert_cancel ha hb (by simpa using h)
  | true =>
      obtain ⟨rfl, v, hdb, hib⟩ := isSelfAddressing_eq_true.1 hself
      obtain ⟨-, w, hda, hia⟩ := isSelfAddressing_eq_true.1 (hsame.trans hself)
      have hne : ("i" : String) ≠ "d" := by decide
      have hvw : w = v := by
        rw [hda, Option.some_inj] at ha
        rw [hdb, Option.some_inj] at hb
        exact ha.trans hb.symm
      rw [hself] at h
      refine Fields.insert_cancel ha hb (Fields.insert_cancel (x := v) ?_ ?_ (by simpa using h))
      · rw [Fields.get_insert_of_ne hne, hia, hvw]
      · rw [Fields.get_insert_of_ne hne, hib]

/-- **The dummied body determines the body.**  Two bodies with the same SAID, neither of which has
the dummy itself in `i`, are equal when their dummied forms are. -/
theorem fillSaid_injective {as bs : Fields} {d i j : Value} {len : ℕ}
    (had : Fields.get "d" as = some d) (hbd : Fields.get "d" bs = some d)
    (hai : Fields.get "i" as = some i) (hbi : Fields.get "i" bs = some j)
    (hi : i ≠ .string (dummyText len)) (hj : j ≠ .string (dummyText len))
    (h : dummied "d" len as = dummied "d" len bs) : as = bs := by
  have hget := congrArg (Fields.get "i") h
  rw [get_i_dummied len had hai, get_i_dummied len hbd hbi, Option.some_inj] at hget
  -- neither `i` is the dummy, so both bodies are self-addressing or neither is
  have hij : i = j := by
    by_cases hid : i = d <;> by_cases hjd : j = d
    · rw [hid, hjd]
    · rw [if_pos hid, if_neg hjd] at hget
      exact absurd hget.symm hj
    · rw [if_neg hid, if_pos hjd] at hget
      exact absurd hget hi
    · rwa [if_neg hid, if_neg hjd] at hget
  subst hij
  refine dummied_injective had hbd ?_ h
  rw [Bool.eq_iff_iff, isSelfAddressing_iff had, isSelfAddressing_iff hbd, hai, hbi]

end Keri
