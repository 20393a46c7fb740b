/-
**Logs of one identifier.**

Receivers and judges that have never heard of one another keep logs of the same identifiers, each
from the messages that happened to reach it, in whatever order and with whatever failures of its
store.  The log of an identifier is what its verifier has taken, and an event is determined by its
SAID; so two logs of an identifier are the same as far as they both go, unless the identifier's
controller has signed two events for one place, both of which a verifier in that state accepts.

* `Keri.takes`, `Keri.logOf` — what the verifier of an identifier makes of a message, and the
  messages it has taken along a run;
* `Keri.kel_runDirect` — **the log of an identifier is what its verifier has taken**;
* `Keri.Party`, `Keri.Forked` — a receiver or a judge; two logs that part, with the two events;
* `Keri.logs_agree_or_fork` — **two logs of one identifier agree, or its controller is
  duplicitous**;
* `Keri.log_delivered` — **a log is passed on by passing on its messages**.
-/

import Keri.Heard
import Keri.InStep
import Keri.Agreement
import Keri.Lib.Replica

set_option relaxedAutoImplicit false
set_option autoImplicit false

namespace Keri

open Outcome Machine Replica Simulation

variable (X : Externals)

/-! ### What a verifier takes -/

/-- What the verifier of an identifier makes of a message: the verifier after it, when the message
is an event of the identifier that is accepted. -/
def takes (p : String) (before : Option Kever) (data : Bytes) : Option (Option Kever) :=
  match parseNext X data with
  | .error _ => none
  | .ok (parsed, _) =>
      match react X parsed before with
      | .ok (r, some k) => if r.pfx = p then some (some k) else none
      | _ => none

/-- The SAID that a message gives itself. -/
def saidOf (data : Bytes) : String :=
  match parseNext X data with
  | .error _ => ""
  | .ok (parsed, _) => (parsed.serder.said.toOption).getD ""

/-- The messages that have gone into the log of an identifier. -/
def takenBy (p : String) (msgs : List Bytes) : List Bytes := taken (takes X p) none msgs

/-- The number the next event of an identifier has to have. -/
def nextSn (before : Option Kever) : ℕ := before.elim 0 fun k => k.state.sn + 1

variable {X} {p : String} {before after : Option Kever} {data : Bytes}

/-- A message that is taken is an event of the identifier that is accepted. -/
theorem takes_eq_some (h : takes X p before data = some after) :
    ∃ parsed size r sigs k, parseNext X data = .ok (parsed, size) ∧
      react X parsed before = .ok (r, some k) ∧ AcceptedBy X before parsed r sigs k ∧ r.pfx = p ∧
      saidOf X data = r.said ∧ after = some k := by
  unfold takes at h
  split at h
  · cases h
  · rename_i parsed size hparse
    split at h
    · rename_i r k hreact
      split at h
      · rename_i hp
        obtain rfl := Option.some_inj.1 h
        obtain ⟨sigs, hacc⟩ := react_accepted hreact
        obtain ⟨-, -, hsaid, -⟩ := Serder.header_eq_ok.1 hacc.header
        refine ⟨parsed, size, r, sigs, k, hparse, hreact, hacc, hp, ?_, rfl⟩
        unfold saidOf
        rw [hparse]
        simp only
        rw [hsaid]
        rfl
      · cases h
    · cases h

/-- A taken event has the next number. -/
theorem takes_nextSn (h : takes X p before data = some after) (hfits : nextSn before < u64Bound) :
    ∃ parsed size r sigs k, parseNext X data = .ok (parsed, size) ∧
      AcceptedBy X before parsed r sigs k ∧ r.pfx = p ∧ saidOf X data = r.said ∧
      after = some k ∧ r.sn = nextSn before ∧ nextSn after = nextSn before + 1 := by
  obtain ⟨parsed, size, r, sigs, k, hparse, -, hacc, hp, hsaid, rfl⟩ := takes_eq_some h
  obtain ⟨-, -, hsn, -, -, hkind⟩ := hacc.advance
  have hnext : r.sn = nextSn before := by
    rcases hkind with ⟨rfl, -, hzero, -⟩ | ⟨k₀, rfl, -, -, hsucc⟩
    · exact hzero
    · rw [hsucc]
      exact u64Succ_of_lt hfits
  refine ⟨parsed, size, r, sigs, k, hparse, hacc, hp, hsaid, rfl, hnext, ?_⟩
  change k.state.sn + 1 = _
  rw [hsn, hnext]

/-- An accepted event is a step of the key state. -/
theorem AcceptedBy.starts_or_extends {parsed : ParsedMessage} {r : ProcessResult}
    {sigs : Option Bytes} {k : Kever} (h : AcceptedBy X before parsed r sigs k)
    (hprim : ∀ k₀, before = some k₀ → IsPrimitive X k₀.state.pfx) :
    (before = none ∧ Starts X parsed.serder.sad k.state) ∨
      ∃ k₀, before = some k₀ ∧ Extends X k₀.state parsed.serder.sad k.state := by
  cases h with
  | inception _ _ _ hnone hverify =>
      left
      obtain ⟨verfers, -, hnew, -⟩ := verifyInception_eq_ok.1 hverify
      obtain ⟨hilk, hok, hincept⟩ := Kever.newFromParts_eq_ok.1 hnew
      obtain ⟨hi, hd, hprim'⟩ := Kever.incept_fields hincept
      obtain ⟨icp, hicp, -, -, -, hstate, -⟩ := Kever.incept_eq_ok.1 hincept
      exact ⟨hnone, ⟨⟨_, hok⟩, hd, hi, hprim'⟩, hilk, icp, hicp, hstate⟩
  | @update _ _ k₀ t _ _ _ hsome hverify =>
      right
      obtain ⟨hverify, -⟩ := verifyNext_eq_ok.1 hverify
      obtain ⟨-, hok, ilk, _, hilk, -, -, hnext⟩ := Kever.verifyUpdateOwned_eq_ok.1 hverify
      obtain ⟨hpfx, hi, hp, hd, -⟩ := Kever.nextState_fields hnext
      have hprim' := hprim k₀ hsome
      rw [← hpfx] at hi hprim'
      refine ⟨k₀, hsome, ⟨⟨_, hok⟩, hd, hi, hprim'⟩, hp, ?_⟩
      rcases Kever.nextState_eq_ok.1 hnext with
        ⟨rfl, -, rot, -, hrot, -, -, happly⟩ | ⟨rfl, ixn, -, hixn, -, -, happly⟩
      · exact Or.inl ⟨hilk, rot, hrot, happly⟩
      · exact Or.inr ⟨hilk, ixn, hixn, happly⟩

/-- The verifier, if there is one, is of an identifier that decodes. -/
def Grounded (X : Externals) (before : Option Kever) : Prop :=
  ∀ k, before = some k → IsPrimitive X k.state.pfx

/-- **The verifier after an event depends on the SAID of the event only.** -/
theorem keyed_takes (hX : SaidLaws X) (p : String) :
    Keyed (takes X p) (saidOf X) (Grounded X) where
  keeps := by
    intro before after data hgrounded h k hk
    obtain ⟨parsed, size, r, sigs, k', -, -, hacc, -, -, rfl⟩ := takes_eq_some h
    obtain rfl := Option.some_inj.1 hk
    rcases hacc.starts_or_extends hgrounded with ⟨-, hstarts⟩ | ⟨k₀, -, hext⟩
    · exact hstarts.primitive
    · exact hext.primitive
  next_eq := by
    intro before after after' data data' hgrounded h h' hsame
    obtain ⟨parsed, size, r, sigs, k, -, -, hacc, -, hsaid, rfl⟩ := takes_eq_some h
    obtain ⟨parsed', size', r', sigs', k', -, -, hacc', -, hsaid', rfl⟩ := takes_eq_some h'
    obtain ⟨-, hlast, -, -, hinc, -⟩ := hacc.advance
    obtain ⟨-, hlast', -, -, hinc', -⟩ := hacc'.advance
    have htip : k.state.lastEventDigest = k'.state.lastEventDigest := by
      rw [hlast, hlast', ← hsaid, ← hsaid', hsame]
    have hstate : k.state = k'.state := by
      rcases hacc.starts_or_extends hgrounded with ⟨hnone, hstarts⟩ | ⟨k₀, hk₀, hext⟩
      · rcases hacc'.starts_or_extends hgrounded with ⟨-, hstarts'⟩ | ⟨k₁, hk₁, -⟩
        · rw [← hstarts.toLeaves.sad_eq hX hstarts'.toLeaves htip] at hstarts'
          exact hstarts.state_eq hstarts'
        · rw [hnone] at hk₁
          cases hk₁
      · rcases hacc'.starts_or_extends hgrounded with ⟨hnone, -⟩ | ⟨k₁, hk₁, hext'⟩
        · rw [hnone] at hk₀
          cases hk₀
        · obtain rfl := Option.some_inj.1 (hk₀.symm.trans hk₁)
          rw [← hext.toLeaves.sad_eq hX hext'.toLeaves htip] at hext'
          exact hext.state_eq hext'
    obtain ⟨s, i⟩ := k
    obtain ⟨s', i'⟩ := k'
    simp only at hstate hinc hinc'
    rw [hstate, hinc, hinc']

theorem grounded_none : Grounded X none := by
  intro k hk
  cases hk

/-! ### The log of an identifier -/

variable {n : Node}

/-- A message that does not name an identifier, or no message at all, changes nothing. -/
theorem stepDirect_unread {parsed : ParsedMessage} {size : ℕ} {e : CoreError}
    (hparse : parseNext X data = .ok (parsed, size)) (hpfx : parsed.serder.pfx = .error e) :
    stepDirect X .sound n data = n := by
  have hheader : parsed.serder.header.mapError KeriError.core = .error (.core e) := by
    unfold Serder.header
    rw [hpfx]
    rfl
  rw [stepDirect_of_parse hparse]
  unfold processParsed
  rw [bind_run_of_error (lift_run_error.2 ⟨hheader, rfl⟩)]
  rfl

/-- A message that the verifier does not take leaves it and its log as they were. -/
theorem stepDirect_untaken (h : takes X p (n.kevers.get p) data = none) :
    (stepDirect X .sound n data).kevers.get p = n.kevers.get p ∧
      ∀ sn < u64Bound, (stepDirect X .sound n data).store.tables.kels.get (snKey p sn) =
        n.store.tables.kels.get (snKey p sn) := by
  cases hparse : parseNext X data with
  | error e =>
      rw [stepDirect_of_error hparse]
      exact ⟨rfl, fun _ _ => rfl⟩
  | ok m =>
      obtain ⟨parsed, size⟩ := m
      rcases ok_or_error parsed.serder.pfx with ⟨q, hq⟩ | ⟨e, he⟩
      · have hreg := (processParsed_react (X := X) hq n).2
        rw [← stepDirect_of_parse hparse] at hreg
        have hkevers := congrArg Registry.kevers hreg
        have hkels := congrArg Registry.kels hreg
        change (stepDirect X .sound n data).kevers = _ at hkevers
        change (stepDirect X .sound n data).store.tables.kels = _ at hkels
        rw [hkevers, hkels]
        by_cases hpq : p = q
        · subst hpq
          -- what is recorded would have been taken
          have hsame : n.registry.record (react X parsed (n.kevers.get p)) = n.registry := by
            rcases ok_or_error (react X parsed (n.kevers.get p)) with ⟨⟨r, after⟩, hr⟩ | ⟨e, he⟩
            · rw [hr]
              cases after with
              | none => rfl
              | some k =>
                  unfold takes at h
                  rw [hparse] at h
                  simp only at h
                  rw [hr] at h
                  simp only at h
                  rw [if_pos (react_of hq hr).1] at h
                  cases h
            · rw [he]
              rfl
          rw [hsame]
          exact ⟨rfl, fun _ _ => rfl⟩
        · obtain ⟨hkever, hlogs⟩ :=
            Registry.record_of_ne (X := X) (n.kevers.get q) hq hpq n.registry
          exact ⟨hkever, fun sn hsn => (hlogs sn hsn).1⟩
      · rw [stepDirect_unread hparse he]
        exact ⟨rfl, fun _ _ => rfl⟩

/-- A message that the verifier takes replaces it, and is logged. -/
theorem stepDirect_taken (h : takes X p (n.kevers.get p) data = some after) :
    (stepDirect X .sound n data).kevers.get p = after ∧
      ∃ k, after = some k ∧ (stepDirect X .sound n data).store.tables.kels =
        n.store.tables.kels.put (snKey p k.state.sn) (saidOf X data) := by
  obtain ⟨parsed, size, r, sigs, k, hparse, hreact, hacc, rfl, hsaid, rfl⟩ := takes_eq_some h
  obtain ⟨hpfx, -⟩ := Serder.header_eq_ok.1 hacc.header
  obtain ⟨-, -, hsn, -⟩ := hacc.advance
  have hreg := (processParsed_react (X := X) hpfx n).2
  rw [← stepDirect_of_parse hparse, hreact] at hreg
  have hkevers : (stepDirect X .sound n data).kevers = n.kevers.put r.pfx k :=
    congrArg Registry.kevers hreg
  have hkels : (stepDirect X .sound n data).store.tables.kels =
      n.store.tables.kels.put (snKey r.pfx r.sn) r.said := congrArg Registry.kels hreg
  refine ⟨?_, k, rfl, ?_⟩
  · rw [hkevers, Table.get_put_self]
  · rw [hkels, hsn, hsaid]

/-- The verifier of an identifier along a run. -/
theorem run_kevers_get (p : String) (n : Node) (msgs : List Bytes) :
    (run (stepDirect X .sound) n msgs).kevers.get p =
      run (advance (takes X p)) (n.kevers.get p) msgs := by
  induction msgs generalizing n with
  | nil => rfl
  | cons data msgs ih =>
      rw [run_cons, run_cons, ih]
      cases h : takes X p (n.kevers.get p) data with
      | none => rw [advance_of_none h, (stepDirect_untaken h).1]
      | some after => rw [advance_of_some h, (stepDirect_taken h).1]

theorem kevers_get_runDirect (p : String) (msgs : List Bytes) :
    (runDirect X .sound msgs).kevers.get p = run (advance (takes X p)) none msgs :=
  run_kevers_get p Node.empty msgs

/-- The verifiers and both logs are in step after every run. -/
theorem synced_runDirect {disk : Disk} (msgs : List Bytes)
    (hfits : (runDirect X disk msgs).store.tables.FitsMap) :
    Synced X (runDirect X disk msgs).kevers (runDirect X disk msgs).store.tables.kels ∧
      (runDirect X disk msgs).store.tables.fels = (runDirect X disk msgs).store.tables.kels := by
  induction msgs using List.reverseRecOn with
  | nil => exact ⟨synced_empty, rfl⟩
  | append_singleton msgs data ih =>
      rw [runDirect_concat] at hfits ⊢
      have hfits₀ : (runDirect X disk msgs).store.tables.FitsMap :=
        le_trans (length_kels_stepDirect_le _ data) hfits
      exact synced_stepDirect data (ih hfits₀) hfits₀

/-- The next number of an identifier fits `u64`. -/
theorem nextSn_lt {msgs : List Bytes} (hfits : (runDirect X .sound msgs).store.tables.FitsMap) :
    nextSn ((runDirect X .sound msgs).kevers.get p) < u64Bound := by
  have hmap : maxMapSize < u64Bound := by decide
  unfold Tables.FitsMap at hfits
  cases hk : (runDirect X .sound msgs).kevers.get p with
  | none =>
      change 0 < u64Bound
      omega
  | some k =>
      have hlt := ((synced_runDirect msgs hfits).1.tracks p k hk).lt_length
      change k.state.sn + 1 < u64Bound
      omega

/-- **What a verifier has taken is logged**, each event under its place in the log. -/
theorem logged_takenBy (p : String) (msgs : List Bytes)
    (hfits : (runDirect X .sound msgs).store.tables.FitsMap) :
    nextSn ((runDirect X .sound msgs).kevers.get p) = (takenBy X p msgs).length ∧
      ∀ i data, (takenBy X p msgs)[i]? = some data →
        (runDirect X .sound msgs).store.tables.kels.get (snKey p i) = some (saidOf X data) := by
  induction msgs using List.reverseRecOn with
  | nil => exact ⟨rfl, fun i data h => by cases h⟩
  | append_singleton msgs new ih =>
      rw [runDirect_concat] at hfits ⊢
      have hfits₀ : (runDirect X .sound msgs).store.tables.FitsMap :=
        le_trans (length_kels_stepDirect_le _ new) hfits
      obtain ⟨hlen, hlog⟩ := ih hfits₀
      have hbound := nextSn_lt (p := p) hfits₀
      have hconcat : takenBy X p (msgs ++ [new]) = takenBy X p msgs ++ _ :=
        taken_concat none msgs new
      rw [← kevers_get_runDirect] at hconcat
      cases h : takes X p ((runDirect X .sound msgs).kevers.get p) new with
      | none =>
          obtain ⟨hkever, hkels⟩ := stepDirect_untaken h
          rw [h, Option.isSome_none, if_neg Bool.false_ne_true, List.append_nil] at hconcat
          rw [hkever, hconcat]
          refine ⟨hlen, fun i data hi => ?_⟩
          have hlt := (List.getElem?_eq_some_iff.1 hi).1
          rw [hkels i (by omega)]
          exact hlog i data hi
      | some after =>
          obtain ⟨hkever, k, rfl, hkels⟩ := stepDirect_taken h
          obtain ⟨-, -, -, -, k', -, -, -, -, hk', -, hnext⟩ := takes_nextSn h hbound
          rw [h, Option.isSome_some, if_pos rfl] at hconcat
          rw [hkever, hconcat, hkels, List.length_append, List.length_singleton, hnext, hlen]
          refine ⟨rfl, fun i data hi => ?_⟩
          have hsn : k.state.sn + 1 = (takenBy X p msgs).length + 1 := hnext.trans (by rw [hlen])
          by_cases hlt : i < (takenBy X p msgs).length
          · rw [List.getElem?_append_left hlt] at hi
            have hkey : snKey p i ≠ snKey p k.state.sn := by
              intro heq
              have := (snKey_inj (by omega) (by omega) heq).2
              omega
            rw [Table.get_put_of_ne _ hkey]
            exact hlog i data hi
          · have hlast := (List.getElem?_eq_some_iff.1 hi).1
            rw [List.length_append, List.length_singleton] at hlast
            rw [List.getElem?_append_right (by omega)] at hi
            have hi0 : i - (takenBy X p msgs).length = 0 := by omega
            rw [hi0] at hi
            obtain rfl := Option.some_inj.1 hi
            have hisn : i = k.state.sn := by omega
            rw [hisn, Table.get_put_self]

/-- Entries numbered from zero. -/
def numbered (saids : List String) : List (ℕ × String) := (List.range saids.length).zip saids

theorem numbered_map_snd (saids : List String) : (numbered saids).map Prod.snd = saids :=
  List.map_snd_zip (by rw [List.length_range])

/-- The first entries of a numbered log are the first SAIDs, numbered. -/
theorem numbered_take (saids : List String) (i : ℕ) :
    (numbered saids).take i = numbered (saids.take i) := by
  simp only [numbered, List.zip, List.take_zipWith, List.take_range, List.length_take]

theorem numbered_isPrefix {saids saids' : List String} (h : saids <+: saids') :
    numbered saids <+: numbered saids' := by
  rw [List.prefix_iff_eq_take] at h ⊢
  have hlen : (numbered saids).length = saids.length := by simp [numbered]
  rw [hlen, numbered_take, ← h]

/-- **The log of an identifier is what its verifier has taken.** -/
theorem kel_runDirect (hX : NoSeparator X) (p : String) (msgs : List Bytes)
    (hfits : (runDirect X .sound msgs).store.tables.FitsMap) :
    (runDirect X .sound msgs).store.tables.kel p =
      numbered ((takenBy X p msgs).map (saidOf X)) := by
  have hkeyed := (synced_runDirect msgs hfits).1.keyed hX
  have hstep : InStep (runDirect X .sound msgs) :=
    (synced_runDirect msgs hfits).1.inStep hX (synced_runDirect msgs hfits).2
  obtain ⟨hlen, hlog⟩ := logged_takenBy p msgs hfits
  have hnumbers : ((runDirect X .sound msgs).store.tables.kel p).map Prod.fst =
      List.range (takenBy X p msgs).length := by
    cases hk : (runDirect X .sound msgs).kevers.get p with
    | none =>
        rw [hk] at hlen
        have hnil : (runDirect X .sound msgs).store.tables.kel p = [] := by
          by_contra hne
          have hsome := (hstep.known p).2 hne
          rw [hk] at hsome
          cases hsome
        rw [hnil, ← hlen]
        rfl
    | some k =>
        rw [hk] at hlen
        rw [hstep.numbers p k hk, ← hlen]
        rfl
  refine List.ext_getElem ?_ fun i hi hi' => ?_
  · have := congrArg List.length hnumbers
    simpa [numbered] using this
  · have hfst : ((runDirect X .sound msgs).store.tables.kel p)[i].1 = i := by
      have hget := List.getElem_of_eq hnumbers (i := i) (by simpa using hi)
      simpa using hget
    have hmem : (((runDirect X .sound msgs).store.tables.kel p)[i].1,
        ((runDirect X .sound msgs).store.tables.kel p)[i].2) ∈
          (runDirect X .sound msgs).store.tables.kel p := List.getElem_mem hi
    obtain ⟨-, -, hget⟩ := (Tables.mem_kel_iff hkeyed).1 hmem
    rw [hfst] at hget
    have hlt : i < (takenBy X p msgs).length := by simpa [numbered] using hi'
    rw [hlog i _ (List.getElem?_eq_getElem hlt)] at hget
    have hsnd := Option.some_inj.1 hget
    simp only [numbered, List.getElem_zip, List.getElem_range, List.getElem_map]
    exact Prod.ext hfst hsnd.symm

/-! ### Parties -/

/-- A receiver or a judge, with its store. -/
inductive Party where
  | receiver (disk : Disk)
  | judge (disk : Disk)

namespace Party

variable (X) in
/-- What a party keeps after a run from nothing. -/
def node (P : Party) (msgs : List Bytes) : Node :=
  match P with
  | .receiver disk => runDirect X disk msgs
  | .judge disk => (runJudge X disk .empty msgs).node

variable (X) in
/-- What a party has heard along the run. -/
def hearing (P : Party) (msgs : List Bytes) : List Bytes :=
  match P with
  | .receiver disk => heard X disk Node.empty msgs
  | .judge disk => admitted X disk (Judge.new .empty) msgs

variable (X) in
/-- The messages that have gone into a party's log of an identifier. -/
def logOf (P : Party) (p : String) (msgs : List Bytes) : List Bytes :=
  takenBy X p (P.hearing X msgs)

/-- A party is a receiver with a sound store that was sent what the party has heard. -/
theorem traceless (P : Party) (msgs : List Bytes) :
    Traceless (P.node X msgs) (runDirect X .sound (P.hearing X msgs)) := by
  cases P with
  | receiver disk => exact (lossy_stepDirect X disk).run (Traceless.refl Node.empty) msgs
  | judge disk => exact (lossy_stepJudge X disk).run (Traceless.refl Node.empty) msgs

theorem hearing_sublist (P : Party) (msgs : List Bytes) : (P.hearing X msgs).Sublist msgs := by
  cases P with
  | receiver disk => exact kept_sublist _ msgs
  | judge disk => exact kept_sublist _ msgs

theorem fitsMap {P : Party} {msgs : List Bytes}
    (h : (P.node X msgs).store.tables.FitsMap) :
    (runDirect X .sound (P.hearing X msgs)).store.tables.FitsMap := by
  rw [(P.traceless msgs).tables]
  exact h

/-- The log of an identifier is what its verifier has taken. -/
theorem kel (hX : NoSeparator X) (P : Party) {msgs : List Bytes}
    (hfits : (P.node X msgs).store.tables.FitsMap) (p : String) :
    (P.node X msgs).store.tables.kel p = numbered ((P.logOf X p msgs).map (saidOf X)) := by
  rw [← (P.traceless msgs).tables]
  exact kel_runDirect hX p _ (fitsMap hfits)

/-- The messages of a log lead to the verifier. -/
theorem path_logOf (P : Party) (p : String) (msgs : List Bytes) :
    Path (takes X p) none (P.logOf X p msgs) ((P.node X msgs).kevers.get p) := by
  rw [← (P.traceless msgs).kevers, kevers_get_runDirect]
  exact path_taken none _

end Party

/-! ### Two logs -/

/-- Two logs of an identifier part.  Up to some place they are the same; there each has an event of
its own, and the verifier that the events before have led to accepts both. -/
def Forked (X : Externals) (p : String) (msgs msgs' : List Bytes) (t t' : Tables) : Prop :=
  ∃ before data data' parsed parsed' size size' r r' sigs sigs' k k',
    data ∈ msgs ∧ parseNext X data = .ok (parsed, size) ∧ AcceptedBy X before parsed r sigs k ∧
    data' ∈ msgs' ∧ parseNext X data' = .ok (parsed', size') ∧
    AcceptedBy X before parsed' r' sigs' k' ∧
    r.pfx = p ∧ r'.pfx = p ∧ r'.sn = r.sn ∧ r.said ≠ r'.said ∧
    (t.kel p).take r.sn = (t'.kel p).take r.sn ∧
    (t.kel p)[r.sn]? = some (r.sn, r.said) ∧ (t'.kel p)[r.sn]? = some (r.sn, r'.said)

/-- A verifier that has taken events has gone as many numbers ahead. -/
theorem nextSn_path {log : List Bytes} (h : Path (takes X p) before log after)
    (hfits : nextSn before + log.length < u64Bound) :
    nextSn after = nextSn before + log.length := by
  induction log generalizing before with
  | nil =>
      obtain rfl : before = after := h
      rfl
  | cons data log ih =>
      obtain ⟨mid, hmid, hrest⟩ := h
      rw [List.length_cons] at hfits ⊢
      obtain ⟨-, -, -, -, -, -, -, -, -, -, -, hnext⟩ := takes_nextSn hmid (by omega)
      rw [ih hrest (by omega), hnext]
      omega

theorem numbered_getElem? {saids : List String} {i : ℕ} {said : String}
    (h : saids[i]? = some said) : (numbered saids)[i]? = some (i, said) := by
  have hlt := (List.getElem?_eq_some_iff.1 h).1
  unfold numbered
  rw [List.getElem?_zip_eq_some]
  exact ⟨List.getElem?_range hlt, h⟩

/-- Where what two verifiers have taken forks, the logs do. -/
theorem forked_of_fork {msgs msgs' log log' : List Bytes} {t t' : Tables}
    (h : Fork (takes X p) (saidOf X) none log log') (hlog : log.Sublist msgs)
    (hlog' : log'.Sublist msgs') (hfits : log.length < u64Bound)
    (ht : t.kel p = numbered (log.map (saidOf X)))
    (ht' : t'.kel p = numbered (log'.map (saidOf X))) : Forked X p msgs msgs' t t' := by
  obtain ⟨i, before, after, after', data, data', hdata, hdata', htake, hpath, -, hstep, hstep',
    hne⟩ := h.exists_at
  have hlt := (List.getElem?_eq_some_iff.1 hdata).1
  have hsn : nextSn before = i := by
    have hlen : (log.take i).length = i := by
      rw [List.length_take]
      omega
    rw [nextSn_path hpath (by change 0 + _ < _; omega), hlen]
    exact Nat.zero_add i
  obtain ⟨parsed, size, r, sigs, k, hparse, hacc, hp, hsaid, -, hrsn, -⟩ :=
    takes_nextSn hstep (by omega)
  obtain ⟨parsed', size', r', sigs', k', hparse', hacc', hp', hsaid', -, hrsn', -⟩ :=
    takes_nextSn hstep' (by omega)
  refine ⟨before, data, data', parsed, parsed', size, size', r, r', sigs, sigs', k, k',
    hlog.subset (List.mem_of_getElem? hdata), hparse, hacc,
    hlog'.subset (List.mem_of_getElem? hdata'), hparse', hacc', hp, hp', hrsn'.trans hrsn.symm,
    by rw [← hsaid, ← hsaid']; exact hne, ?_, ?_, ?_⟩
  · rw [ht, ht', numbered_take, numbered_take, hrsn, hsn, ← List.map_take, ← List.map_take, htake]
  · rw [ht, hrsn, hsn]
    exact numbered_getElem? (by rw [List.getElem?_map, hdata, Option.map_some, hsaid])
  · rw [ht', hrsn, hsn]
    exact numbered_getElem? (by rw [List.getElem?_map, hdata', Option.map_some, hsaid'])

theorem Party.length_logOf_lt (P : Party) {msgs : List Bytes}
    (hfits : (P.node X msgs).store.tables.FitsMap) (p : String) :
    (P.logOf X p msgs).length < u64Bound := by
  have hlen := (logged_takenBy p _ (fitsMap hfits)).1
  have hbound := nextSn_lt (p := p) (fitsMap hfits)
  unfold Party.logOf
  omega

/-- **Two logs of one identifier agree, or its controller is duplicitous.**  Any two parties,
receivers or judges, with whatever stores, that have been sent whatever messages: one's log of an
identifier is the beginning of the other's, or the logs fork in two events that a verifier in one
and the same state accepts.  Parties with equal logs have equal verifiers. -/
theorem logs_agree_or_fork (hX : SaidLaws X) (hsep : NoSeparator X) (P Q : Party)
    (msgs msgs' : List Bytes) (hP : (P.node X msgs).store.tables.FitsMap)
    (hQ : (Q.node X msgs').store.tables.FitsMap) (p : String) :
    ((P.node X msgs).store.tables.kel p <+: (Q.node X msgs').store.tables.kel p ∨
      (Q.node X msgs').store.tables.kel p <+: (P.node X msgs).store.tables.kel p ∨
      Forked X p msgs msgs' (P.node X msgs).store.tables (Q.node X msgs').store.tables) ∧
    ((P.node X msgs).store.tables.kel p = (Q.node X msgs').store.tables.kel p →
      (P.node X msgs).kevers.get p = (Q.node X msgs').kevers.get p) := by
  have hpath := P.path_logOf (X := X) p msgs
  have hpath' := Q.path_logOf (X := X) p msgs'
  rw [P.kel hsep hP, Q.kel hsep hQ]
  constructor
  · rcases agree_or_fork (keyed_takes hX p) grounded_none hpath hpath' with hle | hge | hfork
    · exact Or.inl (numbered_isPrefix hle)
    · exact Or.inr (Or.inl (numbered_isPrefix hge))
    · exact Or.inr (Or.inr (forked_of_fork hfork
        ((taken_sublist none _).trans (P.hearing_sublist msgs))
        ((taken_sublist none _).trans (Q.hearing_sublist msgs')) (P.length_logOf_lt hP p)
        (P.kel hsep hP p) (Q.kel hsep hQ p)))
  · intro hsame
    have hkeys := congrArg (List.map Prod.snd) hsame
    rw [numbered_map_snd, numbered_map_snd] at hkeys
    exact (keyed_takes hX p).state_eq grounded_none hpath hpath' hkeys

/-- Another interaction at the number of the first one. -/
def toyRivalFields : Fields :=
  Fields.insert "a" (.array [.string "other"]) toyNextFields

/-- A digest that is short on the inception and on both interactions. -/
def toyRivalDigest : Bytes → Bytes :=
  Toy.knownDigest [Toy.completedBytes toyFields, Toy.completedBytes toyNextFields,
    Toy.completedBytes toyRivalFields]

abbrev toyRivals : Externals := Toy.externals toyRivalDigest

/-- An event of the instance, signed by key 1. -/
def toyRivalMessage (fields : Fields) : Bytes :=
  Toy.signedBytes (Toy.print (Toy.complete toyRivalDigest fields)) 1

theorem saidLaws_toyRivals : SaidLaws toyRivals := by
  refine saidLaws_toy (Toy.knownDigest_injective ?_)
  rw [List.length_cons, List.length_cons, List.length_singleton]
  omega

/-- A receiver is sent one of the interactions and a judge the other: their logs fork. -/
theorem logs_agree_or_fork_toy :
    Forked toyRivals (Toy.keyText 1)
      [toyRivalMessage toyFields, toyRivalMessage toyNextFields]
      [toyRivalMessage toyFields, toyRivalMessage toyRivalFields]
      ((Party.receiver .sound).node toyRivals
        [toyRivalMessage toyFields, toyRivalMessage toyNextFields]).store.tables
      ((Party.judge .sound).node toyRivals
        [toyRivalMessage toyFields, toyRivalMessage toyRivalFields]).store.tables := by
  have hsep : NoSeparator toyRivals := noSeparator_toy toyRivalDigest
  have hstate : (((Party.receiver .sound).node toyRivals
        [toyRivalMessage toyFields, toyRivalMessage toyNextFields]).store.tables.kels.entries.length
          ≤ maxMapSize ∧
      ((Party.judge .sound).node toyRivals [toyRivalMessage toyFields,
        toyRivalMessage toyRivalFields]).store.tables.kels.entries.length ≤ maxMapSize) ∧
      ¬ ((Party.receiver .sound).node toyRivals [toyRivalMessage toyFields,
          toyRivalMessage toyNextFields]).store.tables.kel (Toy.keyText 1) <+:
        ((Party.judge .sound).node toyRivals [toyRivalMessage toyFields,
          toyRivalMessage toyRivalFields]).store.tables.kel (Toy.keyText 1) ∧
      ¬ ((Party.judge .sound).node toyRivals [toyRivalMessage toyFields,
          toyRivalMessage toyRivalFields]).store.tables.kel (Toy.keyText 1) <+:
        ((Party.receiver .sound).node toyRivals [toyRivalMessage toyFields,
          toyRivalMessage toyNextFields]).store.tables.kel (Toy.keyText 1) := by
    decide +kernel
  obtain ⟨⟨hP, hQ⟩, hle, hge⟩ := hstate
  rcases (logs_agree_or_fork saidLaws_toyRivals hsep (.receiver .sound) (.judge .sound) _ _ hP hQ
    (Toy.keyText 1)).1 with h | h | hfork
  · exact absurd h hle
  · exact absurd h hge
  · exact hfork

/-- **A log is passed on by passing on its messages.**  A receiver that is sent, in order and among
whatever else, the messages that have gone into some party's log of an identifier, has a log that
begins with that log, or the two fork. -/
theorem log_delivered (hX : SaidLaws X) (hsep : NoSeparator X) (P : Party)
    (msgs msgs' : List Bytes) (hP : (P.node X msgs).store.tables.FitsMap)
    (hQ : (runDirect X .sound msgs').store.tables.FitsMap) (p : String)
    (hdelivered : (P.logOf X p msgs).Sublist msgs') :
    (P.node X msgs).store.tables.kel p <+: (runDirect X .sound msgs').store.tables.kel p ∨
      Forked X p msgs msgs' (P.node X msgs).store.tables
        (runDirect X .sound msgs').store.tables := by
  have hpath := P.path_logOf (X := X) p msgs
  rw [P.kel hsep hP, kel_runDirect hsep p msgs' hQ]
  rcases delivered (keyed_takes hX p) grounded_none hpath hdelivered with hle | hfork
  · exact Or.inl (numbered_isPrefix hle)
  · exact Or.inr (forked_of_fork hfork
      ((taken_sublist none _).trans (P.hearing_sublist msgs)) (taken_sublist none _)
      (P.length_logOf_lt hP p) (P.kel hsep hP p) (kel_runDirect hsep p msgs' hQ))

/-- What a judge has logged is sent to a receiver, among other messages. -/
theorem log_delivered_toy :
    ((Party.judge .sound).node toyRivals
        [toyRivalMessage toyFields, toyRivalMessage toyRivalFields]).store.tables.kel
          (Toy.keyText 1) <+:
      (runDirect toyRivals .sound [toyForged, toyRivalMessage toyFields,
        toyRivalMessage toyRivalFields]).store.tables.kel (Toy.keyText 1) ∨
    Forked toyRivals (Toy.keyText 1)
      [toyRivalMessage toyFields, toyRivalMessage toyRivalFields]
      [toyForged, toyRivalMessage toyFields, toyRivalMessage toyRivalFields]
      ((Party.judge .sound).node toyRivals
        [toyRivalMessage toyFields, toyRivalMessage toyRivalFields]).store.tables
      (runDirect toyRivals .sound [toyForged, toyRivalMessage toyFields,
        toyRivalMessage toyRivalFields]).store.tables := by
  have hsep : NoSeparator toyRivals := noSeparator_toy toyRivalDigest
  have hstate : ((Party.judge .sound).node toyRivals [toyRivalMessage toyFields,
        toyRivalMessage toyRivalFields]).store.tables.kels.entries.length ≤ maxMapSize ∧
      (runDirect toyRivals .sound [toyForged, toyRivalMessage toyFields,
        toyRivalMessage toyRivalFields]).store.tables.kels.entries.length ≤ maxMapSize := by
    decide +kernel
  refine log_delivered saidLaws_toyRivals hsep (.judge .sound) _ _ hstate.1 hstate.2
    (Toy.keyText 1) ?_
  exact (((taken_sublist none _).trans (Party.hearing_sublist (.judge .sound) _))).cons toyForged

end Keri
