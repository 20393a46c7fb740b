/-
**Generations of keys.**

Every set of keys of an identifier is derived at a generation of its own: the keys of the inception
at 0, those that it commits to at 1, and those that each rotation commits to at a number that a
counter gives.  The counter and the generations of the current and the next keys are kept apart in
the state.  This module follows them through rotations, interactions and being taken down and up.

* `Keri.Hab.keyPaths` — the derivation paths of a generation;
* `Keri.Hab.Commitment` — an establishment event, with the keys that it commits to;
* `Keri.Hab.Trail` — an identifier, with the establishment events that have led to it;
* `Keri.Hab.Trail.Sound` — what holds along a trail, as long as the counter has not wrapped;
* `Keri.Hab.generations_in_order` — **no generation is used twice**, and a rotation installs the
  keys that were committed to;
* `Keri.Hab.generations_wrap` — the counter wraps after 2⁶³ − 1 rotations.
-/

import Keri.EventLogs
import Keri.Resume
import Keri.WitnessConfig
import Keri.RoundTrips

set_option relaxedAutoImplicit false
set_option autoImplicit false

namespace Keri.Hab

open Outcome Machine

/-! ### Paths -/

/-- The derivation paths of a generation. -/
def keyPaths (generation count : ℕ) : List String :=
  (List.range count).map fun i => decimal generation ++ "." ++ decimal i

/-- Keys are derived at the paths of their generation. -/
theorem deriveSigners_paths (X : Externals) (salter : Salter) (code : String)
    (transferable : Bool) (generation count : ℕ) :
    deriveSigners X salter code transferable generation count =
      (keyPaths generation count).mapM fun path =>
        (salter.signer X code path "low" transferable).mapError KeriError.crypto := by
  rw [deriveSigners, keyPaths, List.mapM_map]
  rfl

theorem decimal_injective {m n : ℕ} (h : decimal m = decimal n) : m = n := by
  have hm := fromStrRadix_decimal (Nat.lt_succ_of_le (Nat.le_max_left m n))
  have hn := fromStrRadix_decimal (Nat.lt_succ_of_le (Nat.le_max_right m n))
  rw [h, hn, Option.some_inj] at hm
  exact hm.symm

/-- **Two generations have no path in common.** -/
theorem keyPaths_disjoint {g g' : ℕ} (h : g ≠ g') (count count' : ℕ) :
    List.Disjoint (keyPaths g count) (keyPaths g' count') := by
  intro path hpath hpath'
  obtain ⟨i, -, rfl⟩ := List.mem_map.1 hpath
  obtain ⟨j, -, heq⟩ := List.mem_map.1 hpath'
  have hlist := congrArg (List.takeWhile (· ≠ '.')) (congrArg String.toList heq)
  have hsplit : ∀ a b : ℕ, (decimal a ++ "." ++ decimal b).toList =
      (decimal a).toList ++ '.' :: (decimal b).toList := by
    intro a b
    simp
  have hdot : digitVal 10 '.' = none := by decide
  rw [hsplit, hsplit, takeWhile_dot (not_mem_decimal hdot g'),
    takeWhile_dot (not_mem_decimal hdot g)] at hlist
  exact h (decimal_injective (String.toList_injective hlist)).symm

/-! ### Trails -/

/-- An establishment event, with the generation and the number of the keys that it commits to. -/
structure Commitment where
  event : SignedEvent
  generation : ℕ
  count : ℕ

variable (X : Externals)

/-- The digests in the event are those of the keys derived at its generation. -/
def Commitment.Holds (h : Hab) (c : Commitment) : Prop :=
  ∃ next digests sad,
    deriveSigners X h.salter h.code h.transferable c.generation c.count = .ok next ∧
      nextKeyDigests X next = .ok digests ∧ X.json.toVec sad = .ok c.event.raw ∧
      sad.get "n" = some (textArray digests)

/-- An identifier, with the establishment events that have led to it; it is intact as long as no
rotation has failed. -/
structure Trail where
  hab : Hab
  commitments : List Commitment
  intact : Bool

/-- What is done with an identifier. -/
inductive Trip where
  | rotate (config : RotationConfig)
  | interact (anchors : List Value)
  /-- Taken down to its state, and up again. -/
  | resume

namespace Trail

def step (salt : Bytes) (t : Trail) : Trip → Trail
  | .rotate config =>
      match rotateInner X Disk.sound config ⟨t.hab, none⟩ with
      | .ok event k =>
          { t with hab := k.hab,
                   commitments := t.commitments ++
                     [{ event, generation := k.hab.nextGen, count := k.hab.nextSigners.length }] }
      | .error _ k => { t with hab := k.hab, intact := false }
  | .interact anchors =>
      { t with hab := (stateAfter (interactInner X Disk.sound anchors ⟨t.hab, none⟩)).hab }
  | .resume =>
      match Hab.resume X t.hab.state salt with
      | .ok hab => { t with hab }
      | .error _ => t

/-- A new identifier, with its inception. -/
def start (config : InceptionConfig) (hab : Hab) (event : SignedEvent) : Trail :=
  { hab, commitments := [{ event, generation := 1, count := config.nextCount }], intact := true }

def after (salt : Bytes) (t : Trail) (trips : List Trip) : Trail := run (step X salt) t trips

variable {X}

/-- The generations of the first `n` commitments: the odd numbers. -/
def odds (n : ℕ) : List ℕ := (List.range n).map fun i => 2 * i + 1

/-- What holds along a trail. -/
structure Sound (X : Externals) (salt : Bytes) (t : Trail) : Prop where
  derived : Derived X salt t.hab
  holds : ∀ c ∈ t.commitments, c.Holds X t.hab
  /-- After `n` establishment events the next keys are at `2n - 1`, and the counter is at `2n`. -/
  ordered : t.commitments.length < 2 ^ 63 →
    t.commitments.map (·.generation) = odds t.commitments.length ∧
      t.hab.signerGen < t.hab.nextGen ∧ t.hab.nextGen + 1 = 2 * t.commitments.length ∧
      t.hab.keyGen = 2 * t.commitments.length
  last : t.intact = true → ∃ c, t.commitments.getLast? = some c ∧
    c.generation = t.hab.nextGen ∧ c.count = t.hab.nextSigners.length

end Trail

/-! ### What the calls leave -/

variable {X}

theorem Commitment.Holds.congr {h h' : Hab} {c : Commitment} (hc : c.Holds X h)
    (hsalter : h'.salter = h.salter) (hcode : h'.code = h.code)
    (htransferable : h'.transferable = h.transferable) : c.Holds X h' := by
  unfold Commitment.Holds
  rw [hsalter, hcode, htransferable]
  exact hc

/-- A rotation that succeeds has been built, and installs the keys that were the next ones. -/
theorem rotateInner_ok {disk : Disk} {config : RotationConfig} {k k' : Keeper}
    {event : SignedEvent} (h : rotateInner X disk config k = .ok event k') :
    ∃ next, k.hab.rotation X config k.hab.nextSigners = .ok (next, event) ∧
      k'.hab = k.hab.rotated config k.hab.nextSigners next event.said := by
  rw [rotateInner_run] at h
  split at h
  · cases h
  · split at h
    · cases h
    · rename_i next event' hrotation
      split at h
      · cases h
      · obtain ⟨rfl, rfl⟩ := EStateM.Result.ok.inj h
        exact ⟨next, hrotation, rfl⟩

/-- A rotation that fails leaves the identifier, or drops its next keys. -/
theorem rotateInner_error {disk : Disk} {config : RotationConfig} {k k' : Keeper} {e : KeriError}
    (h : rotateInner X disk config k = .error e k') :
    k'.hab = k.hab ∨ k'.hab = k.hab.dropped := by
  cases htrans : k.hab.transferable with
  | true => exact Or.inr (hab_of_rotate_error htrans h)
  | false =>
      rw [rotateInner_run, if_pos (by simp [htrans])] at h
      obtain ⟨-, rfl⟩ := EStateM.Result.error.inj h
      exact Or.inl rfl

/-- An interaction leaves the keys and the generations. -/
theorem interactInner_hab (disk : Disk) (anchors : List Value) (k : Keeper) :
    (stateAfter (interactInner X disk anchors k)).hab = k.hab ∨
      ∃ said, (stateAfter (interactInner X disk anchors k)).hab = k.hab.interacted said := by
  rw [interactInner_run]
  split
  · exact Or.inl rfl
  · split
    · rename_i hstore
      exact Or.inl (hab_of_persist_error hstore)
    · exact Or.inr ⟨_, rfl⟩

/-- What goes into a rotation. -/
theorem rotation_ok {h : Hab} {config : RotationConfig} {signers next : List Signer}
    {event : SignedEvent} (hrot : h.rotation X config signers = .ok (next, event)) :
    deriveSigners X h.salter h.code h.transferable (u64Succ h.keyGen) config.nextCount =
        .ok next ∧
      ∃ keys digests sad, keysQb64 X signers = .ok keys ∧ nextKeyDigests X next = .ok digests ∧
        X.json.toVec sad = .ok event.raw ∧ sad.get "k" = some (textArray keys) ∧
        sad.get "n" = some (textArray digests) := by
  simp only [rotation, bind_eq_ok, pure_eq_ok, Prod.mk.injEq] at hrot
  obtain ⟨_, hderive, keys, hkeys, digests, hdigests, _, hseal, rfl, rfl⟩ := hrot
  obtain ⟨sad, hraw, hsad⟩ := sealEvent_body hseal
  refine ⟨hderive, keys, digests, sad, hkeys, hdigests, hraw, ?_, ?_⟩
  · rw [hsad "k" (by decide)]
    rfl
  · rw [hsad "n" (by decide)]
    rfl

namespace Trail

/-! ### Along a trail -/

theorem odds_succ (n : ℕ) : odds (n + 1) = odds n ++ [2 * n + 1] := by
  simp [odds, List.range_succ]

/-- A new identifier is at the start of a trail. -/
theorem sound_start {name : String} {config : InceptionConfig} {random : Bytes} {hab : Hab}
    {event : SignedEvent} {habBytes : Bytes}
    (h : inceptEvent X name config random = .ok (hab, event, habBytes)) :
    Sound X (config.salt.getD random) (start config hab event) ∧
      deriveSigners X hab.salter hab.code hab.transferable 0 config.count = .ok hab.signers := by
  have hderived := derived_of_inceptEvent h
  simp only [inceptEvent, bind_eq_ok, pure_eq_ok, Prod.mk.injEq] at h
  obtain ⟨salter, -, signers, hsigners, next, hnext, keys, -, digests, hdigests, _, hseal, _, -,
    rfl, rfl, -⟩ := h
  obtain ⟨sad, hraw, hsad⟩ := sealEvent_body hseal
  refine ⟨⟨hderived, ?_, ?_, ?_⟩, hsigners⟩
  · intro c hc
    obtain rfl := List.mem_singleton.1 hc
    refine ⟨next, digests, sad, hnext, hdigests, hraw, ?_⟩
    rw [hsad "n" (by decide)]
    rfl
  · intro _
    exact ⟨rfl, Nat.zero_lt_one, rfl, rfl⟩
  · intro _
    exact ⟨_, rfl, rfl, (deriveSigners_length hnext).symm⟩

/-- A rotation that succeeds commits to keys at a new generation. -/
theorem Sound.rotated {salt : Bytes} {t : Trail} (h : Sound X salt t) {config : RotationConfig}
    {next : List Signer} {event : SignedEvent}
    (hrot : t.hab.rotation X config t.hab.nextSigners = .ok (next, event)) :
    Sound X salt
      { t with hab := t.hab.rotated config t.hab.nextSigners next event.said,
               commitments := t.commitments ++
                 [{ event, generation := u64Succ t.hab.keyGen, count := next.length }] } := by
  obtain ⟨hderive, keys, digests, sad, -, hdigests, hraw, -, hn⟩ := rotation_ok hrot
  refine ⟨h.derived.rotated hrot, ?_, ?_, ?_⟩
  · intro c hc
    rcases List.mem_append.1 hc with hc | hc
    · exact (h.holds c hc).congr rfl rfl rfl
    · obtain rfl := List.mem_singleton.1 hc
      refine ⟨next, digests, sad, ?_, hdigests, hraw, hn⟩
      rw [deriveSigners_length hderive]
      exact hderive
  · intro hlen
    simp only [List.length_append, List.length_singleton] at hlen ⊢
    obtain ⟨hodds, hlt, hnext, hkey⟩ := h.ordered (by omega)
    have hsucc : u64Succ t.hab.keyGen = t.hab.keyGen + 1 :=
      u64Succ_of_lt (by unfold u64Bound; omega)
    have hsucc₂ : u64Succ (t.hab.keyGen + 1) = t.hab.keyGen + 2 :=
      u64Succ_of_lt (by unfold u64Bound; omega)
    refine ⟨?_, ?_, ?_, ?_⟩
    · rw [List.map_append, hodds, odds_succ, List.map_singleton, hsucc, hkey]
    · change t.hab.nextGen < u64Succ t.hab.keyGen
      omega
    · change u64Succ t.hab.keyGen + 1 = _
      omega
    · change u64Succ (u64Succ t.hab.keyGen) = _
      rw [hsucc, hsucc₂]
      omega
  · intro _
    exact ⟨_, List.getLast?_concat, rfl, rfl⟩

/-- **Every call keeps a trail sound**, whether it succeeds or not. -/
theorem Sound.step {salt : Bytes} {t : Trail} (h : Sound X salt t) (trip : Trip) :
    Sound X salt (t.step X salt trip) := by
  cases trip with
  | rotate config =>
      rw [Trail.step]
      cases hrotate : rotateInner X Disk.sound config ⟨t.hab, none⟩ with
      | ok event k =>
          obtain ⟨next, hrot, hhab⟩ := rotateInner_ok hrotate
          simp only [hhab]
          exact h.rotated hrot
      | error e k =>
          have hkeeps : Sound X salt { t with hab := k.hab, intact := false } := by
            rcases rotateInner_error hrotate with hhab | hhab
            · rw [hhab]
              exact ⟨h.derived, h.holds, h.ordered, fun hintact => by cases hintact⟩
            · rw [hhab]
              exact ⟨h.derived.dropped, fun c hc => (h.holds c hc).congr rfl rfl rfl, h.ordered,
                fun hintact => by cases hintact⟩
          exact hkeeps
  | interact anchors =>
      rw [Trail.step]
      rcases interactInner_hab Disk.sound anchors (X := X) ⟨t.hab, none⟩ with hhab | ⟨said, hhab⟩
      · rw [hhab]
        exact h
      · rw [hhab]
        exact ⟨h.derived.interacted said, fun c hc => (h.holds c hc).congr rfl rfl rfl, h.ordered,
          h.last⟩
  | resume =>
      rw [Trail.step, resume_state h.derived]
      exact h

theorem Sound.after {salt : Bytes} {t : Trail} (h : Sound X salt t) (trips : List Trip) :
    Sound X salt (t.after X salt trips) :=
  run_inv (P := Sound X salt) trips h fun _ trip ht => ht.step trip

/-- The generations along a trail are in order, so that their paths are disjoint. -/
theorem Sound.disjoint {salt : Bytes} {t : Trail} (h : Sound X salt t)
    (hlen : t.commitments.length < 2 ^ 63) (count : ℕ) :
    (keyPaths 0 count :: t.commitments.map fun c => keyPaths c.generation c.count).Pairwise
      List.Disjoint := by
  obtain ⟨hodds, -⟩ := h.ordered hlen
  have hincreasing : (t.commitments.map (·.generation)).Pairwise (· < ·) := by
    rw [hodds, odds, List.pairwise_map]
    exact List.pairwise_lt_range.imp fun hlt => by omega
  rw [List.pairwise_cons, List.pairwise_map]
  constructor
  · intro paths hpaths
    obtain ⟨c, hc, rfl⟩ := List.mem_map.1 hpaths
    have hmem : c.generation ∈ odds t.commitments.length := by
      rw [← hodds]
      exact List.mem_map_of_mem hc
    obtain ⟨i, -, hi⟩ := List.mem_map.1 hmem
    exact keyPaths_disjoint (by omega) _ _
  · exact (List.pairwise_map.1 hincreasing).imp fun hlt => keyPaths_disjoint (ne_of_lt hlt) _ _

end Trail

/-- **No generation of keys is used twice.**  Along any sequence of rotations, interactions and
resumptions with fewer than 2⁶³ establishment events: the generations of the current keys, the next
keys and the counter are in order, the paths that all key sets are derived at are pairwise disjoint,
and a rotation after rotations that have all succeeded installs the keys that the last establishment
event has committed to. -/
theorem generations_in_order {name : String} {config : InceptionConfig} {random : Bytes}
    {hab : Hab} {event : SignedEvent} {habBytes : Bytes}
    (hincept : inceptEvent X name config random = .ok (hab, event, habBytes)) (trips : List Trip)
    {t : Trail}
    (ht : t = (Trail.start config hab event).after X (config.salt.getD random) trips)
    (hlen : t.commitments.length < 2 ^ 63) :
    (t.hab.signerGen < t.hab.nextGen ∧ t.hab.nextGen < t.hab.keyGen) ∧
      deriveSigners X hab.salter hab.code hab.transferable 0 config.count = .ok hab.signers ∧
      (∀ c ∈ t.commitments, c.Holds X t.hab) ∧
      (∀ generation count, deriveSigners X hab.salter hab.code hab.transferable generation count =
        (keyPaths generation count).mapM fun path =>
          (hab.salter.signer X hab.code path "low" hab.transferable).mapError KeriError.crypto) ∧
      (keyPaths 0 config.count ::
        t.commitments.map fun c => keyPaths c.generation c.count).Pairwise List.Disjoint ∧
      (t.intact = true → ∀ config' event' k',
        rotateInner X Disk.sound config' ⟨t.hab, none⟩ = .ok event' k' →
        ∃ c, t.commitments.getLast? = some c ∧ k'.hab.signerGen = c.generation ∧
          deriveSigners X t.hab.salter t.hab.code t.hab.transferable c.generation c.count =
            .ok k'.hab.signers ∧
          ∃ keys sad, keysQb64 X k'.hab.signers = .ok keys ∧ X.json.toVec sad = .ok event'.raw ∧
            sad.get "k" = some (textArray keys)) := by
  obtain ⟨hstart, hkeys⟩ := Trail.sound_start hincept
  have hsound := hstart.after trips
  rw [← ht] at hsound
  obtain ⟨-, hlt, hnext, hkey⟩ := hsound.ordered hlen
  refine ⟨⟨hlt, by omega⟩, hkeys, hsound.holds, deriveSigners_paths X hab.salter hab.code
    hab.transferable, hsound.disjoint hlen config.count, ?_⟩
  intro hintact config' event' k' hrotate
  obtain ⟨c, hc, hgen, hcount⟩ := hsound.last hintact
  obtain ⟨next, hrot, hhab⟩ := rotateInner_ok hrotate
  obtain ⟨-, keys, digests, sad, hkeys', -, hraw, hk, -⟩ := rotation_ok hrot
  have hsigners : k'.hab.signers = t.hab.nextSigners := by rw [hhab]; rfl
  refine ⟨c, hc, ?_, ?_, keys, sad, ?_, hraw, hk⟩
  · rw [hhab, hgen]
    rfl
  · rw [hsigners, hgen, hcount]
    exact hsound.derived.nextSigners
  · rw [hsigners]
    exact hkeys'

/-! ### A counter that wraps -/

section

open Toy

/-- An identifier whose rotations always succeed. -/
structure Steady (h : Hab) : Prop where
  transferable : h.transferable = true
  code : h.code = "A"
  pfx : isPlain h.pfx = true ∧ (strBytes h.pfx).length = 44
  lastSaid : isPlain h.lastSaid = true ∧ (strBytes h.lastSaid).length = 44
  backerThreshold : h.backerThreshold = 0
  nextSigners : ∃ seed : Bytes, seed.length = 32 ∧ h.nextSigners = [signerOf seed]

/-- One key is derived at every generation. -/
theorem deriveSigners_steady (salter : Salter) (generation : ℕ) :
    ∃ seed : Bytes, seed.length = 32 ∧
      deriveSigners lib salter "A" true generation 1 = .ok [signerOf seed] := by
  let seed := checksumBytes 32
    (strBytes (decimal generation ++ "." ++ decimal 0) ++ salter.matter.raw)
  have hlen : seed.length = 32 := rfl
  have hsigner : salter.signer lib "A" (decimal generation ++ "." ++ decimal 0) "low" true =
      .ok (signerOf seed) := rfl
  refine ⟨seed, hlen, ?_⟩
  rw [deriveSigners, mapM_eq_ok]
  exact List.Forall₂.cons (mapError_eq_ok.2 hsigner) List.Forall₂.nil

theorem verferQb64_signerOf {seed : Bytes} (h : seed.length = 32) :
    (signerOf seed).verfer.qb64 lib = .ok (primitiveText "D" seed) ∧
      (strBytes (primitiveText "D" seed)).length = 44 := by
  have hcode : strBytes "D" = [68] := by decide
  have hgroups : (1 + seed.length) % 3 = 0 := by rw [h]
  have hfs : (1 + seed.length) / 3 * 4 = 44 := by rw [h]
  obtain ⟨htext, hlen⟩ := matterQb64_ok hcode (by decide) (by decide) rfl hgroups hfs
  exact ⟨mapError_eq_ok.2 htext, hlen⟩

/-- The fields of a rotation of one key to another. -/
def steadyFields (pfx sn lastSaid key digest : String) : Fields :=
  [("v", .string "KERI10JSON000000_"), ("t", .string "rot"), ("d", .string ""),
    ("i", .string pfx), ("s", .string sn), ("p", .string lastSaid),
    ("kt", .string "1"), ("k", textArray [key]), ("nt", .string "1"),
    ("n", textArray [digest]), ("bt", .string "0"), ("br", textArray []),
    ("ba", textArray []), ("c", textArray []), ("a", textArray [])]

theorem rotationFields_steady {h : Hab} (hbt : h.backerThreshold = 0) (sn : ℕ)
    (key digest : String) :
    h.rotationFields {} sn [key] [digest] =
      steadyFields h.pfx (hexLower sn) h.lastSaid key digest := by
  rw [rotationFields, hbt]
  rfl

theorem eventFields_steady (pfx sn lastSaid key digest : String) :
    EventFields (steadyFields pfx sn lastSaid key digest) pfx :=
  ⟨⟨_, rfl⟩, rfl, rfl⟩

theorem plain_steady {pfx sn lastSaid key digest : String} (hpfx : isPlain pfx = true)
    (hsn : isPlain sn = true) (hlast : isPlain lastSaid = true) (hkey : isPlain key = true)
    (hdigest : isPlain digest = true) :
    PlainFields (steadyFields pfx sn lastSaid key digest) := by
  have hone : ∀ {s : String}, isPlain s = true → PlainValue (textArray [s]) := by
    intro s hs
    exact .texts fun t ht => List.mem_singleton.1 ht ▸ hs
  have hnone : PlainValue (textArray []) := .texts fun t ht => absurd ht List.not_mem_nil
  have hnames : (steadyFields pfx sn lastSaid key digest).map Prod.fst =
      (steadyFields "" "" "" "" "").map Prod.fst := rfl
  refine ⟨?_, ?_⟩
  · rw [hnames]
    decide
  simp only [steadyFields, List.forall_mem_cons, List.not_mem_nil, false_imp_iff, implies_true,
    and_true]
  refine ⟨⟨by decide, .text (by decide)⟩, ⟨by decide, .text (by decide)⟩,
    ⟨by decide, .text (by decide)⟩, ⟨by decide, .text hpfx⟩, ⟨by decide, .text hsn⟩,
    ⟨by decide, .text hlast⟩, ⟨by decide, .text (by decide)⟩, ⟨by decide, hone hkey⟩,
    ⟨by decide, .text (by decide)⟩, ⟨by decide, hone hdigest⟩, ⟨by decide, .text (by decide)⟩,
    ⟨by decide, hnone⟩, ⟨by decide, hnone⟩, ⟨by decide, hnone⟩, ⟨by decide, hnone⟩⟩

/-- The size of such a rotation. -/
theorem length_steady {pfx sn lastSaid key digest : String} (hpfx : isPlain pfx = true)
    (hpfxLen : (strBytes pfx).length = 44) (hsn : isPlain sn = true)
    (hsnLen : (strBytes sn).length ≤ 16) (hlast : isPlain lastSaid = true)
    (hlastLen : (strBytes lastSaid).length = 44) (hkey : isPlain key = true)
    (hkeyLen : (strBytes key).length = 44) (hdigest : isPlain digest = true)
    (hdigestLen : (strBytes digest).length = 44) :
    (print (.object (dummied "d" 44 (steadyFields pfx sn lastSaid key digest)))).length <
      2 ^ 24 := by
  have hjson := jsonLaws_toy checksumDigest
  -- all texts take the places of others
  let base := Fields.insert "d" (.string (dummyText 44)) (steadyFields "" "" "" "" "")
  have hbase : (print (.object base)).length < 1000 := by decide +kernel
  have hne : pfx ≠ "" := by
    rintro rfl
    cases hpfxLen
  have hsa : isSelfAddressing "d" (steadyFields pfx sn lastSaid key digest) = false := by
    have hf := eventFields_steady pfx sn lastSaid key digest
    rw [Bool.eq_false_iff, ne_eq, isSelfAddressing_iff hf.said, hf.pfx]
    simpa using hne
  have hchain : dummied "d" 44 (steadyFields pfx sn lastSaid key digest) =
      Fields.insert "i" (.string pfx) (Fields.insert "s" (.string sn)
        (Fields.insert "p" (.string lastSaid) (Fields.insert "k" (textArray [key])
          (Fields.insert "n" (textArray [digest]) base)))) := by
    rw [dummied, hsa]
    rfl
  have hn := length_print_insert hjson (y := textArray [digest])
    (show Fields.get "n" base = some (textArray [""]) from rfl)
  have hk := length_print_insert hjson (y := textArray [key])
    (show Fields.get "k" (Fields.insert "n" (textArray [digest]) base) =
      some (textArray [""]) from rfl)
  have hp := length_print_insert hjson (y := .string lastSaid)
    (show Fields.get "p" (Fields.insert "k" (textArray [key])
      (Fields.insert "n" (textArray [digest]) base)) = some (.string "") from rfl)
  have hs := length_print_insert hjson (y := .string sn)
    (show Fields.get "s" (Fields.insert "p" (.string lastSaid) (Fields.insert "k" (textArray [key])
      (Fields.insert "n" (textArray [digest]) base))) = some (.string "") from rfl)
  have hi := length_print_insert hjson (y := .string pfx)
    (show Fields.get "i" (Fields.insert "s" (.string sn) (Fields.insert "p" (.string lastSaid)
      (Fields.insert "k" (textArray [key]) (Fields.insert "n" (textArray [digest]) base)))) =
        some (.string "") from rfl)
  rw [length_print_texts hdigest, hdigestLen] at hn
  rw [length_print_texts hkey, hkeyLen] at hk
  rw [length_print_string hjson hlast, hlastLen] at hp
  rw [length_print_string hjson hsn] at hs
  rw [length_print_string hjson hpfx, hpfxLen] at hi
  clear_value base
  rw [hchain]
  omega

/-- **A steady identifier rotates**, and stays steady. -/
theorem Steady.rotate {h : Hab} (hh : Steady h) :
    ∃ event k', rotateInner lib Disk.sound {} ⟨h, none⟩ = .ok event k' ∧ Steady k'.hab ∧
      k'.hab.keyGen = u64Succ (u64Succ h.keyGen) := by
  obtain ⟨seed, hseed, hnext⟩ := hh.nextSigners
  obtain ⟨seed', hseed', hderive⟩ := deriveSigners_steady h.salter (u64Succ h.keyGen)
  obtain ⟨hkey, hkeyLen⟩ := verferQb64_signerOf hseed
  obtain ⟨hkey', -⟩ := verferQb64_signerOf hseed'
  have hdigest := digestQb64_ok (strBytes (primitiveText "D" seed'))
  obtain ⟨hdigestPlain, hdigestLen⟩ := digestLaws_toy.plain hdigest
  have hkeyPlain : isPlain (primitiveText "D" seed) = true :=
    isPlain_primitiveText (c := 68) (by decide) (by decide) seed
  have hsnLen : (strBytes (hexLower (u64Succ h.sn))).length ≤ 16 := by
    have hlt : u64Succ h.sn < 16 ^ 16 := u64Succ_lt h.sn
    rw [(plain_of_digitChars (digitChars_hexLower _)).2.1, hexLower, String.toList_ofList]
    exact (Nat.length_toDigits_le_iff (by omega) (by omega)).2 hlt
  obtain ⟨event, hseal, -, hsaid⟩ := sealEvent_ok
    (eventFields_steady h.pfx (hexLower (u64Succ h.sn)) h.lastSaid (primitiveText "D" seed) _)
    (plain_steady hh.pfx.1 (isPlain_hexLower _) hh.lastSaid.1 hkeyPlain hdigestPlain) hseed rfl
    (length_steady hh.pfx.1 hh.pfx.2 (isPlain_hexLower _) hsnLen hh.lastSaid.1 hh.lastSaid.2
      hkeyPlain hkeyLen hdigestPlain hdigestLen)
  rw [← rotationFields_steady hh.backerThreshold] at hseal
  have hrot : h.rotation lib {} h.nextSigners = .ok ([signerOf seed'], event) := by
    have hkeys : keysQb64 lib [signerOf seed] = .ok [primitiveText "D" seed] :=
      mapM_eq_ok.2 (List.Forall₂.cons (mapError_eq_ok.2 hkey) List.Forall₂.nil)
    have hcommit : commitmentQb64 lib (signerOf seed') =
        .ok (primitiveText "E" (checksumDigest (strBytes (primitiveText "D" seed')))) := by
      rw [commitmentQb64, hkey']
      exact mapError_eq_ok.2 hdigest
    have hdigests : nextKeyDigests lib [signerOf seed'] =
        .ok [primitiveText "E" (checksumDigest (strBytes (primitiveText "D" seed')))] :=
      mapM_eq_ok.2 (List.Forall₂.cons hcommit List.Forall₂.nil)
    simp only [rotation, bind_eq_ok, pure_eq_ok]
    rw [hh.code, hh.transferable, hnext]
    exact ⟨_, hderive, _, hkeys, _, hdigests, event, hseal, rfl⟩
  refine ⟨event, ⟨h.rotated {} h.nextSigners [signerOf seed'] event.said, none⟩, ?_, ?_, rfl⟩
  · rw [rotateInner_run, if_neg (by simp [hh.transferable]), hrot]
    rfl
  · have hsaidText := digestQb64_ok (print (.object (Fields.insert "v" (.string (versionStringOf
      (print (.object (dummied "d" 44 (steadyFields h.pfx (hexLower (u64Succ h.sn)) h.lastSaid
        (primitiveText "D" seed) (primitiveText "E" (checksumDigest
          (strBytes (primitiveText "D" seed')))))))).length)) (dummied "d" 44 (steadyFields h.pfx
        (hexLower (u64Succ h.sn)) h.lastSaid (primitiveText "D" seed) (primitiveText "E"
          (checksumDigest (strBytes (primitiveText "D" seed')))))))))
    rw [← hsaid] at hsaidText
    exact ⟨hh.transferable, hh.code, hh.pfx, digestLaws_toy.plain hsaidText, hh.backerThreshold,
      seed', hseed', rfl⟩

/-- After `n` rotations the counter has moved by `2n`, and wraps. -/
theorem steady_after (salt : Bytes) (n : ℕ) {t : Trail} (ht : Steady t.hab)
    (hkey : t.hab.keyGen < u64Bound) :
    (t.after lib salt (List.replicate n (.rotate {}))).hab.keyGen =
      (t.hab.keyGen + 2 * n) % u64Bound := by
  induction n generalizing t with
  | zero => exact (Nat.mod_eq_of_lt hkey).symm
  | succ n ih =>
      obtain ⟨event, k', hrotate, hsteady, hkey'⟩ := ht.rotate
      have hstep : (t.step lib salt (.rotate {})).hab = k'.hab := by
        rw [Trail.step, hrotate]
      have hrun := ih (t := t.step lib salt (.rotate {})) (hstep ▸ hsteady)
        (by rw [hstep, hkey']; exact u64Succ_lt _)
      rw [List.replicate_succ]
      change ((t.step lib salt (.rotate {})).after lib salt _).hab.keyGen = _
      rw [hrun, hstep, hkey']
      unfold u64Succ
      rw [Nat.mod_add_mod, Nat.add_assoc, Nat.mod_add_mod]
      congr 1
      omega

/-- A new identifier is steady. -/
theorem exists_steady : ∃ (hab : Hab) (event : SignedEvent) (habBytes : Bytes),
    inceptEvent lib "alice" { salt := some (salt 7) } [] = .ok (hab, event, habBytes) ∧
      Steady hab ∧ hab.keyGen = 2 ∧
      ((Trail.start { salt := some (salt 7) } hab event).after lib (salt 7)
        [.rotate {}, .interact [], .resume, .rotate {}]).commitments.length = 3 := by
  obtain ⟨⟨hab, event, habBytes⟩, hincept, h⟩ := exists_ok_of_any
    (x := inceptEvent lib "alice" { salt := some (salt 7) } [])
    (p := fun r => decide (r.1.transferable = true ∧ r.1.code = "A" ∧
      (isPlain r.1.pfx = true ∧ (strBytes r.1.pfx).length = 44) ∧
      (isPlain r.1.lastSaid = true ∧ (strBytes r.1.lastSaid).length = 44) ∧
      r.1.backerThreshold = 0 ∧ r.1.nextSigners.length = 1 ∧
      (∀ s ∈ r.1.nextSigners, s.raw.length = 32 ∧ s = signerOf s.raw) ∧ r.1.keyGen = 2 ∧
      ((Trail.start { salt := some (salt 7) } r.1 r.2.1).after lib (salt 7)
        [.rotate {}, .interact [], .resume, .rotate {}]).commitments.length = 3))
    (by decide +kernel)
  obtain ⟨htrans, hcode, hpfx, hlast, hbt, hone, hnext, hkey, hthree⟩ := of_decide_eq_true h
  obtain ⟨s, hs⟩ := List.length_eq_one_iff.1 hone
  obtain ⟨hlen, hsigner⟩ := hnext s (by rw [hs]; exact List.mem_cons_self)
  refine ⟨hab, event, habBytes, hincept, ⟨htrans, hcode, hpfx, hlast, hbt, s.raw, hlen, ?_⟩, hkey,
    hthree⟩
  rw [hs, ← hsigner]

theorem generations_in_order_toy : ∃ (hab : Hab) (event : SignedEvent) (t : Trail),
    t = (Trail.start { salt := some (salt 7) } hab event).after lib (salt 7)
      [.rotate {}, .interact [], .resume, .rotate {}] ∧ t.commitments.length = 3 ∧
    t.hab.signerGen < t.hab.nextGen ∧ t.hab.nextGen < t.hab.keyGen := by
  obtain ⟨hab, event, habBytes, hincept, -, -, hthree⟩ := exists_steady
  refine ⟨hab, event, _, rfl, hthree, ?_⟩
  exact (generations_in_order hincept [.rotate {}, .interact [], .resume, .rotate {}] rfl
    (hthree.trans_lt (by decide))).1

/-- **The counter wraps**: after `2 ^ 63 - 1` rotations it is at zero, below the generation of the
next keys. -/
theorem generations_wrap :
    ¬ ∀ (X : Externals) (name : String) (config : InceptionConfig) (random : Bytes) (hab : Hab)
      (event : SignedEvent) (habBytes : Bytes) (trips : List Trip) (t : Trail),
      inceptEvent X name config random = .ok (hab, event, habBytes) →
      t = (Trail.start config hab event).after X (config.salt.getD random) trips →
      t.hab.signerGen < t.hab.nextGen ∧ t.hab.nextGen < t.hab.keyGen := by
  intro hclaim
  obtain ⟨hab, event, habBytes, hincept, hsteady, hkey, -⟩ := exists_steady
  obtain ⟨n, hn⟩ : ∃ n, 2 + 2 * n = u64Bound := ⟨2 ^ 63 - 1, by decide⟩
  have hwrapped := @steady_after (salt 7) n (Trail.start { salt := some (salt 7) } hab event)
    hsteady (hkey.trans_lt (by decide))
  obtain ⟨-, hlt⟩ := hclaim lib "alice" { salt := some (salt 7) } [] hab event habBytes
    (List.replicate n (.rotate {})) _ hincept rfl
  have hzero : (Trail.start { salt := some (salt 7) } hab event).hab.keyGen + 2 * n =
      u64Bound := by
    rw [← hn, ← hkey]
    rfl
  rw [hzero, Nat.mod_self] at hwrapped
  exact absurd (hlt.trans_eq hwrapped) (Nat.not_lt_zero _)

end

end Keri.Hab
