/-
**The controller signatures of a message, read two ways.**

A parsed message has two accessors for its controller signatures: one returns the first group of
them, the other appends all groups.  This module says what the groups of a message are, through
any nesting of quadlet wrappers, and when the two accessors agree.

* `Keri.Shape`, `Keri.Shape.controllerGroups` — the groups of a span, and those of controller
  signatures in the order they stand;
* `Keri.Reads` — a span is made of such groups;
* `Keri.exists_shape` — what the parser returns is the groups of its span, wrappers opened;
* `Keri.SameSigs` — both accessors lead to one outcome;
* `Keri.sameSigs_iff` — **they do exactly when every group after the first is empty**.
-/

import Keri.Direct
import Keri.ParserGroups
import Keri.SaidBinding

set_option relaxedAutoImplicit false
set_option autoImplicit false

namespace Keri

open Outcome

/-! ### The groups of a span -/

/-- Groups one after the other, some of them in wrappers. -/
inductive Shape where
  | done
  | group (a : Attachment) (rest : Shape)
  | wrapper (inner rest : Shape)

namespace Shape

/-- All groups, wrappers opened. -/
def attachments : Shape → List Attachment
  | done => []
  | group a rest => a :: rest.attachments
  | wrapper inner rest => inner.attachments ++ rest.attachments

/-- The groups of controller signatures, in the order they stand in. -/
def controllerGroups : Shape → List (List Siger)
  | done => []
  | group (.controllerSigs sigs) rest => sigs :: rest.controllerGroups
  | group _ rest => rest.controllerGroups
  | wrapper inner rest => inner.controllerGroups ++ rest.controllerGroups

end Shape

/-- The groups of controller signatures among attachments. -/
def controllerGroups (atts : List Attachment) : List (List Siger) :=
  atts.filterMap fun
    | .controllerSigs sigs => some sigs
    | _ => none

theorem Shape.controllerGroups_eq (shape : Shape) :
    shape.controllerGroups = Keri.controllerGroups shape.attachments := by
  induction shape with
  | done => rfl
  | group a rest ih =>
      cases a <;> simp only [Shape.controllerGroups, Shape.attachments, ih] <;> rfl
  | wrapper inner rest ih₁ ih₂ =>
      rw [Shape.controllerGroups, Shape.attachments, ih₁, ih₂]
      exact List.filterMap_append.symm

section

variable (X : Externals) (table : CounterTable) (strict : Bool)

/-- A span starts with these groups, which take up so many bytes of it. -/
inductive Reads : Bytes → Shape → ℕ → Prop where
  | done {data : Bytes} (hend : data.head? ≠ some dash) : Reads data .done 0
  | group {data : Bytes} {counter : Counter} {size consumed n : ℕ} {a : Attachment}
      {rest : Shape} (hdash : data.head? = some dash)
      (hcounter : parseCounter X data = .ok (counter, size))
      (hkind : GroupKind.classify counter.code table ≠ some .attachedMaterialQuadlets)
      (hread : parseGroup X (parseAttachments X table strict) table strict counter
        (data.drop size) = .ok ([a], consumed))
      (hrest : Reads (data.drop (size + consumed)) rest n) :
      Reads data (.group a rest) (size + consumed + n)
  | wrapper {data : Bytes} {counter : Counter} {size n : ℕ} {inner rest : Shape}
      (hdash : data.head? = some dash)
      (hcounter : parseCounter X data = .ok (counter, size))
      (hkind : GroupKind.classify counter.code table = some .attachedMaterialQuadlets)
      (hinner : Reads ((data.drop size).take (counter.count * 4)) inner (counter.count * 4))
      (hrest : Reads (data.drop (size + counter.count * 4)) rest n) :
      Reads data (.wrapper inner rest) (size + counter.count * 4 + n)

end

variable {X : Externals}

/-- A counter that opens no wrapper is followed by one group. -/
theorem parseGroup_single {nested : Bytes → Except CoreError (List Attachment × ℕ)}
    {table : CounterTable} {strict : Bool} {counter : Counter} {data : Bytes}
    {group : List Attachment} {consumed : ℕ}
    (hkind : GroupKind.classify counter.code table ≠ some .attachedMaterialQuadlets)
    (h : parseGroup X nested table strict counter data = .ok (group, consumed)) :
    ∃ a, group = [a] := by
  have hunknown : ∀ {error code : String} {count : ℕ},
      uninterpreted strict error code count data = .ok (group, consumed) → ∃ a, group = [a] := by
    intro error code count hun
    cases strict with
    | true => cases hun
    | false => exact ⟨_, (Prod.mk.inj (Except.ok.inj hun)).1.symm⟩
  have htagged : ∀ {β : Type} {read : Except CoreError (β × ℕ)} (tag : β → Attachment),
      (read >>= fun p => pure ([tag p.1], p.2)) = .ok (group, consumed) → ∃ a, group = [a] := by
    intro β read tag htag
    obtain ⟨p, -, hp⟩ := bind_eq_ok.1 htag
    exact ⟨tag p.1, (Prod.mk.inj (Except.ok.inj hp)).1.symm⟩
  rw [parseGroup] at h
  split at h
  · exact hunknown h
  · exact absurd ‹_› hkind
  · exact htagged .controllerSigs h
  · exact htagged .witnessSigs h
  · exact htagged .receiptCouples h
  · exact htagged .firstSeenReplayCouples h
  · exact htagged .sealSourceCouples h
  · exact htagged .transIdxSigGroups h
  · exact hunknown h

/-- **What the parser returns is the groups of its span**, with the wrappers opened. -/
theorem exists_shape (hX : CounterLaws X) {table : CounterTable} {strict : Bool} {data : Bytes}
    {atts : List Attachment} {n : ℕ} (h : parseAttachments X table strict data = .ok (atts, n)) :
    ∃ shape, Reads X table strict data shape n ∧ shape.attachments = atts := by
  -- a wrapper's contents and what follows a group are both shorter than the span
  induction hlen : data.length using Nat.strong_induction_on generalizing data atts n with
  | _ len ih =>
      subst hlen
      by_cases hdash : data.head? = some dash
      · obtain ⟨counter, size, -, -, -, -, hc, -⟩ :=
          (parseAttachmentsFrom_succ_eq_ok hdash).1 h
        obtain ⟨hpos, hsize⟩ := parseCounter_le hX hc
        obtain ⟨group, consumed, more, k, hg, hm, rfl, rfl⟩ :=
          (parseAttachments_eq_ok hX hdash hc).1 h
        have hshort : (data.drop (size + consumed)).length < data.length := by
          rw [List.length_drop]
          omega
        obtain ⟨rest, hrest, rfl⟩ := ih _ hshort hm rfl
        by_cases hkind : GroupKind.classify counter.code table = some .attachedMaterialQuadlets
        · have hq : parseQuadlets (parseAttachments X table strict) counter.count
              (data.drop size) = .ok (group, consumed) := by
            rw [← hg, parseGroup, hkind]
          obtain ⟨-, -, hnested, rfl⟩ := parseQuadlets_eq_ok.1 hq
          have hspan : ((data.drop size).take (counter.count * 4)).length < data.length := by
            rw [List.length_take, List.length_drop]
            omega
          obtain ⟨inner, hinner, rfl⟩ := ih _ hspan hnested rfl
          exact ⟨.wrapper inner rest, .wrapper hdash hc hkind hinner hrest, rfl⟩
        · obtain ⟨a, rfl⟩ := parseGroup_single hkind hg
          exact ⟨.group a rest, .group hdash hc hkind hg hrest, rfl⟩
      · rw [parseAttachments_of_ne hdash] at h
        obtain ⟨rfl, rfl⟩ := Prod.mk.inj (Except.ok.inj h)
        exact ⟨.done, .done hdash, rfl⟩

/-! ### The two accessors -/

/-- One accessor appends the groups. -/
theorem extractControllerSigs_eq (atts : List Attachment) :
    extractControllerSigs atts = (controllerGroups atts).flatten := by
  induction atts with
  | nil => rfl
  | cons a atts ih =>
      have hcons : extractControllerSigs (a :: atts) =
          (match a with | .controllerSigs sigs => sigs | _ => []) ++
            extractControllerSigs atts := rfl
      rw [hcons, ih]
      cases a <;> simp [controllerGroups]

/-- The other one stops at the first. -/
theorem controllerSigs_eq (m : ParsedMessage) :
    m.controllerSigs = (controllerGroups m.attachments).head?.getD [] := by
  unfold ParsedMessage.controllerSigs
  induction m.attachments with
  | nil => rfl
  | cons a atts ih =>
      rw [List.findSome?_cons]
      cases a with
      | controllerSigs sigs => rfl
      | witnessSigs sigs => exact ih
      | receiptCouples couples => exact ih
      | firstSeenReplayCouples couples => exact ih
      | sealSourceCouples couples => exact ih
      | transIdxSigGroups groups => exact ih
      | unknown code count raw => exact ih

/-- The first of several lists is all there is exactly when the others are empty. -/
theorem head_eq_flatten_iff {α : Type} (groups : List (List α)) :
    groups.head?.getD [] = groups.flatten ↔ ∀ g ∈ groups.tail, g = [] := by
  cases groups with
  | nil => simp
  | cons g rest =>
      rw [List.flatten_cons, List.head?_cons, Option.getD_some, List.tail_cons,
        List.self_eq_append_right, List.flatten_eq_nil_iff]

section

variable (X)

/-- A message is read with one outcome through either accessor. -/
structure SameSigs (m : ParsedMessage) : Prop where
  same : m.controllerSigs = extractControllerSigs m.attachments
  inception : ∀ verfers, Kever.new X m.serder m.controllerSigs verfers =
    Kever.new X m.serder (extractControllerSigs m.attachments) verfers
  update : ∀ k : Kever, k.update X m.serder m.controllerSigs =
    k.update X m.serder (extractControllerSigs m.attachments)

end

/-- **When both accessors agree.**  Of a message that is accepted, one of them appends all groups of
controller signatures, in order and through all wrappers; the other gives the same exactly when
every group after the first is empty. -/
theorem sameSigs_iff (hX : CounterLaws X) {stream : Bytes} {m : ParsedMessage} {n : ℕ}
    (h : parseNext X stream = .ok (m, n)) :
    ∃ shape k, n = m.serder.size + k ∧
      Reads X m.serder.table true (stream.drop m.serder.size) shape k ∧
      shape.attachments = m.attachments ∧
      extractControllerSigs m.attachments = shape.controllerGroups.flatten ∧
      (SameSigs X m ↔ ∀ g ∈ shape.controllerGroups.tail, g = []) := by
  obtain ⟨-, -, -, k, -, hatts, rfl⟩ := parseNextInner_eq_ok.1 h
  obtain ⟨shape, hreads, hshape⟩ := exists_shape hX hatts
  have hgroups : shape.controllerGroups = controllerGroups m.attachments := by
    rw [Shape.controllerGroups_eq, hshape]
  have hiff : m.controllerSigs = extractControllerSigs m.attachments ↔
      ∀ g ∈ shape.controllerGroups.tail, g = [] := by
    rw [controllerSigs_eq, extractControllerSigs_eq, hgroups]
    exact head_eq_flatten_iff _
  refine ⟨shape, k, rfl, hreads, hshape, ?_, ?_⟩
  · rw [extractControllerSigs_eq, hgroups]
  · constructor
    · intro hsame
      exact hiff.1 hsame.same
    · intro hempty
      have hsame := hiff.2 hempty
      exact ⟨hsame, fun verfers => by rw [hsame], fun k => by rw [hsame]⟩

/-! ### Instances -/

/-- The signature of the toy inception. -/
def toyGroup : Bytes :=
  strBytes ("-AAB" ++ Toy.primitiveText "AA" (Toy.seed 1 ++ Toy.checksumBytes 32 Toy.icp.raw))

/-- An inception with its signature and an empty group of signatures in a wrapper, and an empty
group after it. -/
def toyWrapped : Bytes :=
  Toy.icp.raw ++ (strBytes "-VAY" ++ toyGroup ++ strBytes "-AAA" ++ strBytes "-AAA")

/-- An inception with an empty group of signatures, and its signature in a group after it. -/
def toySecondGroup : Bytes := Toy.icp.raw ++ (strBytes "-AAA" ++ toyGroup)

/-- Three groups, through a wrapper, of which both accessors give the one that is not empty; and two
of which they do not. -/
theorem sameSigs_toy :
    (∃ m n shape k, parseNext Toy.lib toyWrapped = .ok (m, n) ∧ n = m.serder.size + k ∧
      Reads Toy.lib m.serder.table true (toyWrapped.drop m.serder.size) shape k ∧
      shape.controllerGroups.map List.length = [1, 0, 0] ∧ SameSigs Toy.lib m) ∧
    ∃ m n shape k, parseNext Toy.lib toySecondGroup = .ok (m, n) ∧ n = m.serder.size + k ∧
      Reads Toy.lib m.serder.table true (toySecondGroup.drop m.serder.size) shape k ∧
      shape.controllerGroups.map List.length = [0, 1] ∧ ¬ SameSigs Toy.lib m := by
  have hX : CounterLaws Toy.lib := counterLaws_toy Toy.checksumDigest
  constructor
  · obtain ⟨⟨m, n⟩, hparse, hgroups⟩ := exists_ok_of_any (x := parseNext Toy.lib toyWrapped)
      (p := fun r => decide ((controllerGroups r.1.attachments).map List.length = [1, 0, 0]))
      (by decide +kernel)
    obtain ⟨shape, k, hn, hreads, hshape, -, hiff⟩ := sameSigs_iff hX hparse
    have hlengths : shape.controllerGroups.map List.length = [1, 0, 0] := by
      rw [Shape.controllerGroups_eq, hshape]
      exact of_decide_eq_true hgroups
    refine ⟨m, n, shape, k, hparse, hn, hreads, hlengths, hiff.2 fun g hg => ?_⟩
    have hlen := List.mem_map_of_mem (f := List.length) hg
    rw [List.map_tail, hlengths] at hlen
    exact List.length_eq_zero_iff.1 (by simpa using hlen)
  · obtain ⟨⟨m, n⟩, hparse, hgroups⟩ := exists_ok_of_any (x := parseNext Toy.lib toySecondGroup)
      (p := fun r => decide ((controllerGroups r.1.attachments).map List.length = [0, 1]))
      (by decide +kernel)
    obtain ⟨shape, k, hn, hreads, hshape, -, hiff⟩ := sameSigs_iff hX hparse
    have hlengths : shape.controllerGroups.map List.length = [0, 1] := by
      rw [Shape.controllerGroups_eq, hshape]
      exact of_decide_eq_true hgroups
    refine ⟨m, n, shape, k, hparse, hn, hreads, hlengths, fun hsame => ?_⟩
    -- the second group is not empty
    have hone : 1 ∈ shape.controllerGroups.tail.map List.length := by
      rw [List.map_tail, hlengths]
      exact List.mem_singleton_self 1
    obtain ⟨g, hg, hlen⟩ := List.mem_map.1 hone
    rw [hiff.1 hsame g hg] at hlen
    cases hlen

/-- It is an inception through the one accessor, and none through the other. -/
theorem second_group_missed :
    ¬ ∀ (X : Externals) (stream : Bytes) (m : ParsedMessage) (n : ℕ), CounterLaws X →
      parseNext X stream = .ok (m, n) →
      m.controllerSigs = extractControllerSigs m.attachments ∧
      ∀ verfers, Kever.new X m.serder m.controllerSigs verfers =
        Kever.new X m.serder (extractControllerSigs m.attachments) verfers := by
  intro hclaim
  have hX : CounterLaws Toy.lib := counterLaws_toy Toy.checksumDigest
  obtain ⟨⟨m, n⟩, hparse, hrun⟩ := exists_ok_of_any (x := parseNext Toy.lib toySecondGroup)
    (p := fun r => !(Kever.new Toy.lib r.1.serder r.1.controllerSigs [Toy.verfer 1]).isOk &&
      (Kever.new Toy.lib r.1.serder (extractControllerSigs r.1.attachments)
        [Toy.verfer 1]).isOk) (by decide +kernel)
  rw [Bool.and_eq_true, Bool.not_eq_true'] at hrun
  obtain ⟨hrefused, haccepted⟩ := hrun
  rw [(hclaim _ _ _ _ hX hparse).2, haccepted] at hrefused
  cases hrefused

end Keri
