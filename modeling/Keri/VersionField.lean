/-
**What the version of a serder says.**

The version of a serder decides how a stream is cut and which table its counters are read against.
It comes from the version string that a value has, from a default, from a scan of the first bytes of
a buffer or from the `v` field of the value that was read, and a serder that is made writes it back
with a size that depends on the length of what is written.

* `Keri.Serder.Truthful` — the version has the size and the kind of the body, and is the one in its
  `v` field;
* `Keri.SizeLaws` — what is assumed of the serializers;
* `Keri.VersionFits`, `Keri.VersionAgrees` — the value that a serder is made of, and the buffer that
  it is read from, have a version string that says what the body is;
* `Keri.version_truthful_iff` — **the version of a serder is truthful exactly then**;
* `Keri.version_of_another_kind` — a JSON body whose version says CBOR.
-/

import Keri.Sealing
import Keri.Toy

set_option relaxedAutoImplicit false
set_option autoImplicit false

namespace Keri

open Outcome

/-! ### What a version says -/

/-- The version of a serder, if it has one, has the size and the kind of the body, and is the one
that its `v` field is read as. -/
def Serder.Truthful (s : Serder) : Prop :=
  ∀ v, s.version = some v → v.size = s.raw.length ∧ v.kind = s.kind ∧
    ∃ vs, versionText s.sad = some vs ∧ Version.parseStr vs = .ok v

/-- The version that the `v` field of a value is read as. -/
def fieldVersion (sad : Value) : Option Version :=
  (versionText sad).bind fun vs => (Version.parseStr vs).toOption

theorem fieldVersion_eq_some {sad : Value} {v : Version} :
    fieldVersion sad = some v ↔
      ∃ vs, versionText sad = some vs ∧ Version.parseStr vs = .ok v := by
  simp only [fieldVersion, Option.bind_eq_some_iff, toOption_eq_some]

/-! ### A body that is written -/

variable (X : Externals)

/-- What is assumed of the serializers: of two bodies that differ in the size that their version
string carries, the one with the longer version string is the longer. -/
structure SizeLaws : Prop where
  length_le_iff : ∀ {kind : SerializationKind} {v : Version} {m n : ℕ} {obj : Fields}
      {as bs : Bytes},
    serializeValue X (.object (Fields.insert "v"
      (.string ({ v with size := m } : Version).toVersionString) obj)) kind = .ok as →
    serializeValue X (.object (Fields.insert "v"
      (.string ({ v with size := n } : Version).toVersionString) obj)) kind = .ok bs →
    (as.length ≤ bs.length ↔
      (strBytes ({ v with size := m } : Version).toVersionString).length ≤
        (strBytes ({ v with size := n } : Version).toVersionString).length)

/-- The size of the serialized value has six digits. -/
def SizeFits (kind : SerializationKind) (sad : Value) : Prop :=
  ∀ raw, serializeValue X sad kind = .ok raw → raw.length < 2 ^ 24

/-- A version string that is there, if it is read, names the kind to serialize in, and the size has
six digits, both as the value stands and with that size in its version string. -/
def VersionFits (kind : SerializationKind) (sad : Value) : Prop :=
  ∀ vs, versionText sad = some vs →
    (∀ ver, Version.parseStr vs = .ok ver → ver.kind = kind) ∧ SizeFits X kind sad ∧
    ∀ raw, serializeValue X sad kind = .ok raw →
      SizeFits X kind (setVersionField sad (Serder.versionFor kind vs raw.length).toVersionString)

variable {X}

theorem versionFor_size (kind : SerializationKind) (vs : String) (m n : ℕ) :
    ({ Serder.versionFor kind vs m with size := n } : Version) = Serder.versionFor kind vs n := by
  unfold Serder.versionFor
  cases Version.parseStr vs <;> rfl

theorem wellformed_versionFor (kind : SerializationKind) (vs : String) (n : ℕ) :
    (Serder.versionFor kind vs n).Wellformed := by
  unfold Serder.versionFor
  cases hp : Version.parseStr vs with
  | ok ver => exact Version.wellformed_of_parseStr hp n
  | error e => exact Version.wellformed_defaultV1 kind n

theorem size_versionFor (kind : SerializationKind) (vs : String) (n : ℕ) :
    (Serder.versionFor kind vs n).size = n := by
  unfold Serder.versionFor
  cases Version.parseStr vs <;> rfl

/-- The kind is taken from the version string that is there. -/
theorem kind_versionFor {kind : SerializationKind} {vs : String} {n : ℕ} :
    (Serder.versionFor kind vs n).kind = kind ↔
      ∀ ver, Version.parseStr vs = .ok ver → ver.kind = kind := by
  unfold Serder.versionFor
  cases Version.parseStr vs with
  | ok ver => simp
  | error e => simp [Version.defaultV1]

/-- Two version strings for one body are equally long when both sizes have six digits, and when one
has and they are equally long the other has. -/
theorem size_lt_iff_of_length_eq {kind : SerializationKind} {vs : String} {m n : ℕ}
    (hn : n < 2 ^ 24) :
    (strBytes (Serder.versionFor kind vs m).toVersionString).length =
        (strBytes (Serder.versionFor kind vs n).toVersionString).length ↔ m < 2 ^ 24 := by
  obtain ⟨hfits, hlong⟩ := Version.length_toVersionString (wellformed_versionFor kind vs m)
  rw [size_versionFor] at hfits hlong
  have hlen := (Version.length_toVersionString (wellformed_versionFor kind vs n)).1
    (by rw [size_versionFor]; exact hn)
  constructor
  · intro heq
    by_contra hm
    have hlt := hlong (Nat.le_of_not_lt hm)
    omega
  · intro hm
    rw [hfits hm, hlen]

/-- Two sizes in one version string make bodies of one length exactly when both have six digits,
once one has. -/
theorem length_eq_iff (hX : SizeLaws X) {kind : SerializationKind} {vs : String} {obj : Fields}
    {m n : ℕ} {as bs : Bytes} (hn : n < 2 ^ 24)
    (ha : serializeValue X (.object (Fields.insert "v"
      (.string (Serder.versionFor kind vs m).toVersionString) obj)) kind = .ok as)
    (hb : serializeValue X (.object (Fields.insert "v"
      (.string (Serder.versionFor kind vs n).toVersionString) obj)) kind = .ok bs) :
    as.length = bs.length ↔ m < 2 ^ 24 := by
  have hle := @hX.length_le_iff kind (Serder.versionFor kind vs 0) m n obj as bs
  have hge := @hX.length_le_iff kind (Serder.versionFor kind vs 0) n m obj bs as
  simp only [versionFor_size] at hle hge
  rw [← size_lt_iff_of_length_eq hn, Nat.le_antisymm_iff, Nat.le_antisymm_iff, hle ha hb, hge hb ha]

/-- A serder whose `v` field is its version written out is truthful when the size, the kind and the
width of the size are right. -/
theorem truthful_iff_of_written {kind : SerializationKind} {vs : String} {n : ℕ} {s : Serder}
    (hversion : s.version = some (Serder.versionFor kind vs n))
    (htext : versionText s.sad = some (Serder.versionFor kind vs n).toVersionString) :
    s.Truthful ↔
      n = s.raw.length ∧ (Serder.versionFor kind vs n).kind = s.kind ∧ n < 2 ^ 24 := by
  have hwell := wellformed_versionFor kind vs n
  have hsize := size_versionFor kind vs n
  constructor
  · intro ht
    obtain ⟨hlen, hkind, vs', hvs', hparse⟩ := ht _ hversion
    rw [htext, Option.some_inj] at hvs'
    subst hvs'
    exact ⟨hsize ▸ hlen, hkind, hsize ▸ Version.size_lt_of_parseStr hwell hparse⟩
  · rintro ⟨hlen, hkind, hlt⟩ v hsome
    rw [hversion, Option.some_inj] at hsome
    subst hsome
    have hparse := Version.parseStr_toVersionString hwell (hsize.symm ▸ hlt)
    exact ⟨hsize.trans hlen, hkind, _, htext, hparse⟩

/-- A value with a version string is an object. -/
theorem eq_object_of_versionText {sad : Value} {vs : String} (h : versionText sad = some vs) :
    ∃ obj, sad = .object obj := by
  obtain ⟨x, hx, -⟩ := Option.bind_eq_some_iff.1 h
  obtain ⟨obj, hobj, -⟩ := Option.bind_eq_some_iff.1 hx
  exact ⟨obj, Value.asObject_eq_some.1 hobj⟩

/-- **The version of a serder that is made of a value is truthful exactly when the kind is that of
the version string that is there and the sizes have six digits.** -/
theorem truthful_new (hX : SizeLaws X) {kind : SerializationKind} {sad : Value} {s : Serder}
    (h : Serder.new X kind sad = .ok s) : s.Truthful ↔ VersionFits X kind sad := by
  cases hv : versionText sad with
  | none =>
      -- a body without a version string has no version
      obtain ⟨-, hnone, -⟩ := Serder.new_of_versionText_none hv h
      constructor
      · intro _ vs hvs
        rw [hv] at hvs
        cases hvs
      · intro _ v hsome
        rw [hnone] at hsome
        cases hsome
  | some vs =>
      obtain ⟨raw₀, raw₁, hraw₀, hraw₁, hversion, hsad, hraw, hkind⟩ :=
        (Serder.new_eq_ok hv).1 h
      obtain ⟨obj, rfl⟩ := eq_object_of_versionText hv
      rw [versionFor_size] at hversion hsad
      rw [setVersionField, setVersionField, Fields.insert_insert_self] at hsad
      rw [setVersionField] at hraw₁
      have htext : versionText s.sad =
          some (Serder.versionFor kind vs raw₁.length).toVersionString := by
        rw [hsad, versionText, Value.get_object, Fields.get_insert_self]
        rfl
      -- the size that is written is that of the body when its length did not change again
      have hsame : raw₁.length < 2 ^ 24 → (raw₁.length = s.raw.length ↔ raw₀.length < 2 ^ 24) := by
        intro hlt
        rw [hsad] at hraw
        exact length_eq_iff hX hlt hraw₁ hraw
      rw [truthful_iff_of_written hversion htext, hkind, kind_versionFor]
      constructor
      · rintro ⟨hsize, hk, hlt⟩ vs' hvs'
        rw [hv, Option.some_inj] at hvs'
        subst hvs'
        refine ⟨hk, ?_, ?_⟩
        · intro raw hraw'
          rw [← Except.ok.inj (hraw₀.symm.trans hraw')]
          exact (hsame hlt).1 hsize
        · intro raw hraw' raw' hraw''
          rw [← Except.ok.inj (hraw₀.symm.trans hraw'), setVersionField] at hraw''
          rw [← Except.ok.inj (hraw₁.symm.trans hraw'')]
          exact hlt
      · intro hfits
        obtain ⟨hk, hlt₀, hlt₁⟩ := hfits vs hv
        have hlt : raw₁.length < 2 ^ 24 := hlt₁ raw₀ hraw₀ raw₁ hraw₁
        exact ⟨(hsame hlt).2 (hlt₀ raw₀ hraw₀), hk, hlt⟩

/-! ### A body that is read -/

variable (X)

/-- The version string that is found at the start of the buffer names the kind of the body and is
the one in its `v` field; when none is found, the one in the `v` field, if it is read, names the
kind and the size of the whole buffer. -/
def VersionAgrees (raw : Bytes) : Prop :=
  ∀ kind sad, sniffKind raw = .ok kind →
    deserializeValue X
      (raw.take (((extractVersionFromRaw raw).map (·.size)).getD raw.length)) kind = .ok sad →
    (∀ v, extractVersionFromRaw raw = some v → v.kind = kind ∧ fieldVersion sad = some v) ∧
    (extractVersionFromRaw raw = none → ∀ v, fieldVersion sad = some v →
      v.kind = kind ∧ v.size = raw.length)

variable {X}

/-- **The version of a serder that is read is truthful exactly when the version string that is found
is the one in the `v` field.** -/
theorem truthful_fromRaw {raw : Bytes} {s : Serder} (h : Serder.fromRaw X raw = .ok s) :
    s.Truthful ↔ VersionAgrees X raw := by
  obtain ⟨-, hkind, hlen, hraw, hsad, hversion⟩ := Serder.fromRaw_eq_ok.1 h
  change s.version = (extractVersionFromRaw raw).or (fieldVersion s.sad) at hversion
  have hagrees : VersionAgrees X raw ↔
      (∀ v, extractVersionFromRaw raw = some v → v.kind = s.kind ∧ fieldVersion s.sad = some v) ∧
      (extractVersionFromRaw raw = none → ∀ v, fieldVersion s.sad = some v →
        v.kind = s.kind ∧ v.size = raw.length) := by
    rw [hraw] at hsad
    constructor
    · intro hall
      exact hall s.kind s.sad hkind hsad
    · intro hall kind sad hkind' hsad'
      rw [← Except.ok.inj (hkind.symm.trans hkind')] at hsad' ⊢
      rw [← Except.ok.inj (hsad.symm.trans hsad')]
      exact hall
  rw [hagrees]
  cases hscan : extractVersionFromRaw raw with
  | some v =>
      -- the size is that of the body, because it is how much of the buffer was taken
      rw [hscan, Option.some_or] at hversion
      rw [hscan, Option.map_some, Option.getD_some] at hlen hraw
      have hsize : v.size = s.raw.length := by
        rw [hraw, List.length_take, Nat.min_eq_left hlen]
      constructor
      · intro ht
        obtain ⟨-, hk, hfield⟩ := ht v hversion
        refine ⟨?_, fun hnone => by cases hnone⟩
        intro v' hv'
        rw [← Option.some_inj.1 hv']
        exact ⟨hk, fieldVersion_eq_some.2 hfield⟩
      · rintro ⟨hall, -⟩ v' hsome
        rw [hversion, Option.some_inj] at hsome
        subst hsome
        obtain ⟨hk, hfield⟩ := hall v rfl
        exact ⟨hsize, hk, fieldVersion_eq_some.1 hfield⟩
  | none =>
      rw [hscan, Option.none_or] at hversion
      rw [hscan, Option.map_none, Option.getD_none, List.take_length] at hraw
      constructor
      · intro ht
        constructor
        · intro v hv
          cases hv
        · intro _ v hv
          obtain ⟨hsize, hk, -⟩ := ht v (hversion.trans hv)
          exact ⟨hk, hraw ▸ hsize⟩
      · rintro ⟨-, hall⟩ v hsome
        rw [hversion] at hsome
        obtain ⟨hk, hsize⟩ := hall rfl v hsome
        exact ⟨by rw [hraw, hsize], hk, fieldVersion_eq_some.1 hsome⟩

/-- A JSON body that has its version string first, with its own size in it, is read truthfully
whatever follows it. -/
theorem versionAgrees_of_first {print : Value → Bytes} (hX : JsonLaws X print) {n : ℕ}
    (hn : n < 2 ^ 24) {rest : Fields} {raw : Bytes}
    (hraw : X.json.toVec (.object (("v", .string (versionStringOf n)) :: rest)) = .ok raw)
    (hlen : raw.length = n) (more : Bytes) : VersionAgrees X (raw ++ more) := by
  have hprint := hX.toVec_eq hraw
  have hscan : extractVersionFromRaw (raw ++ more) = some (Version.defaultV1 .json n) := by
    refine extractVersionFromRaw_append ?_ more
    rw [hprint]
    exact extractVersionFromRaw_print hX hn rest
  have hsniff : sniffKind (raw ++ more) = .ok .json := by
    rw [hprint, hX.object]
    rfl
  intro kind sad hkind hsad
  rw [hsniff, Except.ok.injEq] at hkind
  subst hkind
  rw [hscan, Option.map_some, Option.getD_some] at hsad
  have htake : (raw ++ more).take (Version.defaultV1 .json n).size = raw := List.take_left' hlen
  rw [htake] at hsad
  obtain rfl := Except.ok.inj ((hX.decode hraw).symm.trans (mapError_eq_ok.1 hsad))
  constructor
  · intro v hv
    rw [hscan, Option.some_inj] at hv
    subst hv
    exact ⟨rfl, fieldVersion_eq_some.2 ⟨versionStringOf n, rfl, parseStr_versionStringOf hn⟩⟩
  · intro hnone
    rw [hscan] at hnone
    cases hnone

/-- **The version of a serder is truthful exactly when** the value it is made of, or the buffer it
is read from, **has one version string that says what the body is**. -/
theorem version_truthful_iff (hX : SizeLaws X) :
    (∀ kind sad s, Serder.new X kind sad = .ok s → (s.Truthful ↔ VersionFits X kind sad)) ∧
    (∀ raw s, Serder.fromRaw X raw = .ok s → (s.Truthful ↔ VersionAgrees X raw)) :=
  ⟨fun _ _ _ h => truthful_new hX h, fun _ _ h => truthful_fromRaw h⟩

/-! ### An instance -/

namespace Toy

/-- Only the digits of the size make two version strings of one version differ in length. -/
theorem length_printString_sized (v : Version) (m n : ℕ) :
    (printString ({ v with size := m } : Version).toVersionString).length +
        (strBytes ({ v with size := n } : Version).toVersionString).length =
      (printString ({ v with size := n } : Version).toVersionString).length +
        (strBytes ({ v with size := m } : Version).toVersionString).length := by
  have hdigits : ∀ k : ℕ, (strBytes (zeroPad 6 (hexLower k))).flatMap escape =
      strBytes (zeroPad 6 (hexLower k)) :=
    fun k => flatMap_escape (isPlain_zeroPad 6 k)
  simp only [printString, Version.toVersionString, strBytes_append, List.flatMap_append, hdigits,
    List.length_append, List.length_cons]
  omega

end Toy

theorem sizeLaws_toy (digest : Bytes → Bytes) : SizeLaws (Toy.externals digest) := by
  constructor
  intro kind v m n obj as bs ha hb
  have hjson := jsonLaws_toy digest
  cases kind with
  | json =>
      rw [hjson.toVec_eq (mapError_eq_ok.1 ha), hjson.toVec_eq (mapError_eq_ok.1 hb)]
      have hinsert := length_print_insert hjson
        (y := .string ({ v with size := n } : Version).toVersionString)
        (Fields.get_insert_self "v"
          (.string ({ v with size := m } : Version).toVersionString) obj)
      rw [Fields.insert_insert_self] at hinsert
      have hprint : ∀ t : String, Toy.print (.string t) = Toy.printString t := by
        intro t
        rw [Toy.print]
      have hsized := Toy.length_printString_sized v m n
      rw [hprint, hprint] at hinsert
      omega
  | cbor =>
      simp only [serializeValue, Externals.serialize] at ha
      cases mapError_eq_ok.1 ha
  | msgPack =>
      simp only [serializeValue, Externals.serialize] at ha
      cases mapError_eq_ok.1 ha

/-- A value with the version string of an empty JSON body. -/
def toyVersioned : Value := .object [("v", .string "KERI10JSON000000_"), ("t", .string "icp")]

/-- The version string of a toy event is the one in its `v` field. -/
theorem toy_agrees : VersionAgrees Toy.lib Toy.icp.raw := by
  have hagrees : ((sniffKind Toy.icp.raw).toOption.all fun kind =>
      (deserializeValue Toy.lib (Toy.icp.raw.take
        (((extractVersionFromRaw Toy.icp.raw).map (·.size)).getD Toy.icp.raw.length))
        kind).toOption.all fun sad =>
      (extractVersionFromRaw Toy.icp.raw).any fun v : Version =>
        decide (v.kind = kind ∧ fieldVersion sad = some v)) = true := by
    decide +kernel
  intro kind sad hkind hsad
  rw [hkind] at hagrees
  have hread := hagrees
  simp only [Except.toOption, Option.all_some, hsad] at hread
  obtain ⟨v, hv, hread⟩ := (Option.any_eq_true _ _).1 hread
  constructor
  · intro v' hv'
    obtain rfl := Option.some_inj.1 (hv.symm.trans hv')
    exact of_decide_eq_true hread
  · intro hnone
    rw [hv] at hnone
    cases hnone

/-- A serder that is made of a value, and one that is read. -/
theorem version_truthful_toy :
    (∃ s, Serder.new Toy.lib .json toyVersioned = .ok s ∧ s.Truthful) ∧
    ∃ s, Serder.fromRaw Toy.lib Toy.icp.raw = .ok s ∧ s.version.isSome ∧ s.Truthful := by
  have hX : SizeLaws Toy.lib := sizeLaws_toy Toy.checksumDigest
  obtain ⟨hnew, hread⟩ := version_truthful_iff hX
  constructor
  · obtain ⟨s, hs, -⟩ := exists_ok_of_any (x := Serder.new Toy.lib .json toyVersioned)
      (p := fun _ => true) (by decide +kernel)
    have hfits : ((serializeValue Toy.lib toyVersioned .json).toOption.all fun raw =>
        decide (raw.length < 2 ^ 24) &&
          (serializeValue Toy.lib (setVersionField toyVersioned
            (Serder.versionFor .json "KERI10JSON000000_" raw.length).toVersionString)
              .json).toOption.all fun raw => decide (raw.length < 2 ^ 24)) = true := by
      decide +kernel
    have hkind : ((Version.parseStr "KERI10JSON000000_").toOption.all fun ver =>
        decide (ver.kind = .json)) = true := by decide +kernel
    refine ⟨s, hs, (hnew .json toyVersioned s hs).2 ?_⟩
    intro vs hvs
    have htext : versionText toyVersioned = some "KERI10JSON000000_" := by decide
    rw [htext, Option.some_inj] at hvs
    subst hvs
    refine ⟨?_, ?_, ?_⟩
    · intro ver hver
      rw [hver] at hkind
      exact of_decide_eq_true hkind
    · intro raw hraw
      rw [hraw] at hfits
      exact of_decide_eq_true (Bool.and_eq_true_iff.1 hfits).1
    · intro raw hraw raw' hraw'
      rw [hraw] at hfits
      have hrest := (Bool.and_eq_true_iff.1 hfits).2
      rw [hraw'] at hrest
      exact of_decide_eq_true hrest
  · obtain ⟨s, hs, hversion⟩ := exists_ok_of_any (x := Serder.fromRaw Toy.lib Toy.icp.raw)
      (p := fun s => s.version.isSome) (by decide +kernel)
    exact ⟨s, hs, hversion, (hread _ s hs).2 toy_agrees⟩

/-- A JSON body keeps the kind of the version string that it was given. -/
theorem version_of_another_kind :
    ¬ ∀ X : Externals, SizeLaws X →
      (∀ kind sad s, Serder.new X kind sad = .ok s → s.Truthful) ∧
      (∀ raw s, Serder.fromRaw X raw = .ok s → s.Truthful) := by
  intro hclaim
  obtain ⟨s, hs, hkinds⟩ := exists_ok_of_any
    (x := Serder.new Toy.lib .json (.object [("v", .string "KERI10CBOR000000_")]))
    (p := fun s : Serder => s.version.any fun v : Version =>
      decide (v.kind = .cbor ∧ s.kind = .json))
    (by decide +kernel)
  obtain ⟨v, hv, hkinds⟩ := (Option.any_eq_true _ _).1 hkinds
  obtain ⟨hcbor, hjson⟩ := of_decide_eq_true hkinds
  have hX : SizeLaws Toy.lib := sizeLaws_toy Toy.checksumDigest
  obtain ⟨-, hkind, -⟩ := (hclaim Toy.lib hX).1 _ _ s hs v hv
  rw [hcbor, hjson] at hkind
  cases hkind

end Keri
