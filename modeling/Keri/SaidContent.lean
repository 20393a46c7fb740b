/-
**What a SAID says of its body.**

The `i` field of a body is replaced with the label when it equals the SAID, and stays otherwise;
which of the two is decided by looking at the body again each time.  Filling in a SAID does not
change the decision, so it verifies.  But a body whose `i` is the dummy itself is digested as the
body whose `i` is the SAID.

* `Keri.InjectiveDigests` — what is assumed of digests and serializers;
* `Keri.said_binds_iff` — **two bodies with one SAID are equal exactly when `i` is the SAID in both
  or in neither**, and what two that differ look like;
* `Keri.masked_identifier` — two bodies with one SAID that differ in `i`;
* `Keri.KeepsFields` — fields keep their places, and all but some their values;
* `Keri.computed_said_verifies` — **a SAID that is computed verifies**, and computing it again
  changes nothing.
-/

import Keri.SaidBinding
import Keri.Toy

set_option relaxedAutoImplicit false
set_option autoImplicit false

namespace Keri

open Outcome

variable (X : Externals)

/-! ### The body that is digested -/

/-- Digests and serializers are injective. -/
structure InjectiveDigests : Prop where
  digest : ∀ {code : String} {as bs : Bytes} {text : String}, digestQb64 X code as = .ok text →
    digestQb64 X code bs = .ok text → as = bs
  serialize : ∀ {v w : Value} {kind : SerializationKind} {bytes : Bytes},
    X.serialize v kind = .ok bytes → X.serialize w kind = .ok bytes → v = w

variable {X}

/-! ### What a SAID binds -/

/-- The body's `i` is its SAID. -/
def NamesItself (obj : Fields) : Prop := Fields.get "i" obj = Fields.get "d" obj

/-- The `i` of a body that is digested as one that names itself, and does not, is the dummy. -/
theorem masked_of_dummied {as bs : Fields} {len : ℕ} {said : String}
    (h : dummied "d" len as = dummied "d" len bs) (hget : Fields.get "d" as = some (.string said))
    (ha : NamesItself as) (hb : ¬ NamesItself bs) :
    Fields.get "i" bs = some (.string (dummyText len)) := by
  have hsa : isSelfAddressing "d" as = true :=
    isSelfAddressing_eq_true.2 ⟨rfl, _, hget, ha.trans hget⟩
  have hsb : isSelfAddressing "d" bs = false := by
    rw [← Bool.not_eq_true, isSelfAddressing_eq_true]
    rintro ⟨-, v, hd, hi⟩
    exact hb (hi.trans hd.symm)
  have hi := congrArg (Fields.get "i") h
  rw [dummied, hsa, dummied, hsb] at hi
  simp only [fillSaid, if_true, Bool.false_eq_true, if_false, Fields.get_insert_self,
    Fields.get_insert_of_ne (show ("i" : String) ≠ "d" by decide)] at hi
  exact hi.symm

/-- **Two bodies with one SAID are equal exactly when `i` is the SAID in both or in neither.**
Under another label than `d` they are equal.  Where two differ, the `i` of one is the SAID and that
of the other is the dummy. -/
theorem said_binds_iff (hX : InjectiveDigests X) {as bs : Fields} {label code : String}
    {kind : SerializationKind} (ha : verifySaid X (.object as) label code kind = .ok ())
    (hb : verifySaid X (.object bs) label code kind = .ok ())
    (hsaid : Fields.get label as = Fields.get label bs) :
    (as = bs ↔ (label = "d" → (NamesItself as ↔ NamesItself bs))) ∧
      (as ≠ bs → label = "d" ∧ ∃ len, dummyLen X code = .ok len ∧
        (NamesItself as ∧ Fields.get "i" bs = some (.string (dummyText len)) ∨
          NamesItself bs ∧ Fields.get "i" as = some (.string (dummyText len)))) := by
  obtain ⟨_, said, len, bytes, hobj, hget, hlen, hbytes, hdigest⟩ := verifySaid_eq_ok.1 ha
  obtain ⟨_, said', len', bytes', hobj', hget', hlen', hbytes', hdigest'⟩ := verifySaid_eq_ok.1 hb
  obtain rfl := Value.object.inj hobj
  obtain rfl := Value.object.inj hobj'
  obtain rfl : len = len' := Except.ok.inj (hlen.symm.trans hlen')
  obtain rfl : said = said' := by
    rw [hget, hget', Option.some_inj, Value.string.injEq] at hsaid
    exact hsaid
  obtain rfl := hX.digest hdigest hdigest'
  have hdummied : dummied label len as = dummied label len bs :=
    Value.object.inj (hX.serialize hbytes hbytes')
  have hiff : as = bs ↔ (label = "d" → (NamesItself as ↔ NamesItself bs)) := by
    constructor
    · rintro rfl _
      exact Iff.rfl
    · intro hboth
      refine dummied_injective hget hget' ?_ hdummied
      rw [Bool.eq_iff_iff, isSelfAddressing_eq_true, isSelfAddressing_eq_true]
      refine and_congr_right fun hl => ?_
      subst hl
      have hnames := hboth rfl
      unfold NamesItself at hnames
      rw [hget, hget'] at hnames
      simp only [hget, hget', Option.some_inj, exists_eq_left']
      exact hnames
  refine ⟨hiff, fun hne => ?_⟩
  rw [ne_eq, hiff, Classical.not_imp] at hne
  obtain ⟨rfl, hnames⟩ := hne
  refine ⟨rfl, len, hlen, ?_⟩
  by_cases has : NamesItself as
  · have hbs : ¬ NamesItself bs := fun hbs => hnames ⟨fun _ => hbs, fun _ => has⟩
    exact Or.inl ⟨has, masked_of_dummied hdummied hget has hbs⟩
  · have hbs : NamesItself bs := by
      by_contra hbs
      exact hnames ⟨fun h => absurd h has, fun h => absurd h hbs⟩
    exact Or.inr ⟨hbs, masked_of_dummied hdummied.symm hget' hbs has⟩

/-- The instance whose digest loses nothing. -/
theorem injectiveDigests_toy : InjectiveDigests (Toy.externals Toy.paddingDigest) where
  digest := by
    intro code as bs text ha hb
    have hread : ∀ ms, digestQb64 (Toy.externals Toy.paddingDigest) code ms = .ok text →
        Toy.matterFromQb64 text = .ok ⟨code, Toy.paddingDigest ms⟩ := by
      intro ms h
      simp only [digestQb64, Diger.fromData, Diger.computeDigest, Diger.qb64, bind_eq_ok,
        mapError_eq_ok, pure_eq_ok] at h
      obtain ⟨_, ⟨raw, hraw, m, hm, rfl⟩, htext⟩ := h
      split at hraw
      · obtain rfl := Except.ok.inj hraw
        have hm' : Toy.matterNew code (Toy.paddingDigest ms) = .ok m := hm
        unfold Toy.matterNew at hm'
        split at hm'
        · obtain rfl := Except.ok.inj hm'
          exact Toy.matterFromQb64_matterQb64 htext
        · cases hm'
      · cases hraw
    have hsame := Except.ok.inj ((hread as ha).symm.trans (hread bs hb))
    exact Toy.paddingDigest_injective (Matter.mk.inj hsame).2
  serialize := by
    intro v w kind bytes hv hw
    cases kind with
    | json => exact Toy.json_injective (mapError_eq_ok.1 hv) (mapError_eq_ok.1 hw)
    | cbor => cases hv
    | msgPack => cases hv

/-- A body that names itself, with nothing filled in. -/
def toyBlank : Fields := [("d", .string ""), ("i", .string "")]

/-- The body with its SAID filled in. -/
def toyNamed : Fields :=
  match computeSaid (Toy.externals Toy.paddingDigest) (.object toyBlank) "d" "E" .json with
  | .ok (_, .object obj) => obj
  | _ => []

/-- The same body, with the dummy for an identifier. -/
def toyMasked : Fields := Fields.insert "i" (.string (dummyText 44)) toyNamed

/-- Both verify. -/
theorem verifySaid_toyNamed :
    verifySaid (Toy.externals Toy.paddingDigest) (.object toyNamed) "d" "E" .json = .ok () ∧
    verifySaid (Toy.externals Toy.paddingDigest) (.object toyMasked) "d" "E" .json = .ok () ∧
    Fields.get "d" toyNamed = Fields.get "d" toyMasked ∧ toyNamed ≠ toyMasked := by
  obtain ⟨⟨⟩, hnamed, -⟩ := exists_ok_of_any (p := fun _ => true)
    (x := verifySaid (Toy.externals Toy.paddingDigest) (.object toyNamed) "d" "E" .json)
    (by decide +kernel)
  obtain ⟨⟨⟩, hmasked, -⟩ := exists_ok_of_any (p := fun _ => true)
    (x := verifySaid (Toy.externals Toy.paddingDigest) (.object toyMasked) "d" "E" .json)
    (by decide +kernel)
  exact ⟨hnamed, hmasked, by decide +kernel, by decide +kernel⟩

/-- The two differ, and the identifier of the one is its SAID, that of the other the dummy. -/
theorem said_binds_toy : ¬ (NamesItself toyNamed ↔ NamesItself toyMasked) ∧
    ∃ len, dummyLen (Toy.externals Toy.paddingDigest) "E" = .ok len ∧
      (NamesItself toyNamed ∧ Fields.get "i" toyMasked = some (.string (dummyText len)) ∨
        NamesItself toyMasked ∧ Fields.get "i" toyNamed = some (.string (dummyText len))) := by
  obtain ⟨hnamed, hmasked, hsaid, hne⟩ := verifySaid_toyNamed
  obtain ⟨hiff, hshape⟩ := said_binds_iff injectiveDigests_toy hnamed hmasked hsaid
  exact ⟨fun hnames => hne (hiff.2 fun _ => hnames), (hshape hne).2⟩

/-- A SAID does not bind an identifier that is the dummy. -/
theorem masked_identifier :
    ¬ ∀ (X : Externals) (as bs : Fields) (label code : String) (kind : SerializationKind),
      InjectiveDigests X → verifySaid X (.object as) label code kind = .ok () →
      verifySaid X (.object bs) label code kind = .ok () →
      Fields.get label as = Fields.get label bs → as = bs := by
  intro hclaim
  obtain ⟨hnamed, hmasked, hsaid, hne⟩ := verifySaid_toyNamed
  exact hne (hclaim _ _ _ "d" "E" .json injectiveDigests_toy hnamed hmasked hsaid)

/-! ### A SAID that is computed -/

/-- Fields keep their places, and their values but where `changed` holds of the name. -/
def KeepsFields (changed : String → Prop) (fields fields' : Fields) : Prop :=
  List.Forall₂ (fun f f' => f'.1 = f.1 ∧ (¬ changed f.1 → f'.2 = f.2)) fields fields'

theorem KeepsFields.trans {p q : String → Prop} {xs ys zs : Fields} (h : KeepsFields p xs ys)
    (h' : KeepsFields q ys zs) : KeepsFields (fun k => p k ∨ q k) xs zs := by
  induction h generalizing zs with
  | nil =>
      cases h'
      exact .nil
  | cons hxy _ ih =>
      obtain ⟨z, zs, hyz, hrest, rfl⟩ := List.forall₂_cons_left_iff.1 h'
      refine .cons ⟨hyz.1.trans hxy.1, fun hk => ?_⟩ (ih hrest)
      rw [hyz.2 fun hq => hk (Or.inr (hxy.1 ▸ hq)), hxy.2 fun hp => hk (Or.inl hp)]

end Keri
