/-
**Verifiers and logs.**

The verifiers of a receiver and its event logs are two records of the same events.  An accepted
event moves the verifier of its identifier one step and writes the log entry of that step, so the
log of an identifier with a verifier reaches exactly up to the verifier's sequence number and ends
with its last digest.

* `Keri.AcceptedBy.advance` — **what an accepted event does to a verifier**;
* `Keri.Tracks` — the log of an identifier, against its verifier;
* `Keri.tracks_put` — an accepted event with its log entry;
* `Keri.Synced` — the verifiers and a log in step, with nothing else in the log;
* `Keri.tracks_runJudge` — what the first-seen log of a judge has of a verifier.
-/

import Keri.Judge
import Keri.EventLogs
import Keri.SaidBinding

set_option relaxedAutoImplicit false
set_option autoImplicit false

namespace Keri

open Outcome Machine

/-! ### What an accepted event does -/

variable {X : Externals} {disk : Disk}

/-- The SAID of a body that verifies is an encoded digest. -/
theorem cesrText_of_verifySaid {sad : Value} {kind : SerializationKind} {d : String} {u : Unit}
    (h : verifySaid X sad "d" "E" kind = .ok u) (hd : sad.get "d" = some (.string d)) :
    CesrText X d := by
  obtain ⟨obj, said, len, bytes, rfl, hget, -, -, hdig⟩ := verifySaid_eq_ok.1 h
  rw [Value.get_object, hget, Option.some_inj, Value.string.injEq] at hd
  subst hd
  simp only [digestQb64, Diger.fromData, Diger.qb64, bind_eq_ok, mapError_eq_ok, pure_eq_ok] at hdig
  obtain ⟨_, ⟨_, -, m, -, rfl⟩, htext⟩ := hdig
  exact ⟨m, htext⟩

/-- The prefix of an accepted inception is an encoded primitive: its SAID or its first key. -/
theorem Kever.incept_cesrText {raw : Bytes} {sad : Value} {sigs : List Siger}
    {verfers : List Verfer} {k : Kever} {kind : SerializationKind} {u : Unit}
    (hsaid : verifySaid X sad "d" "E" kind = .ok u)
    (h : Kever.incept X raw sad sigs verfers = .ok k) : CesrText X k.state.pfx := by
  obtain ⟨icp, hicp, hkeys, -, hpfx, hstate, -⟩ := Kever.incept_eq_ok.1 h
  obtain ⟨-, bt, -, -, hstate⟩ := KeyState.fromInception_eq_ok.1 hstate
  obtain ⟨hd, -, -⟩ := InceptionEvent.fields hicp
  rw [hstate]
  change CesrText X icp.pfx
  unfold Kever.validatePrefixDerivation at hpfx
  split at hpfx
  · have heq : icp.pfx = icp.said := ensure_eq_ok.1 hpfx
    rw [heq]
    exact cesrText_of_verifySaid hsaid hd
  · split at hpfx
    · have hhead : icp.keys.head? = some icp.pfx := ensure_eq_ok.1 hpfx
      have hall := Kever.checkKeys_eq_ok.1 hkeys
      cases hks : icp.keys with
      | nil =>
          rw [hks] at hhead
          cases hhead
      | cons key keys =>
          rw [hks, List.head?_cons, Option.some_inj] at hhead
          rw [hks] at hall
          obtain ⟨verfer, _, hqb64, -, -⟩ := List.forall₂_cons_left_iff.1 hall
          unfold Verfer.qb64 at hqb64
          rw [mapError_eq_ok, hhead] at hqb64
          exact ⟨verfer.matter, hqb64⟩
    · cases hpfx

/-- **What an accepted event does to a verifier.**  An inception gives one at number zero; an update
moves it to the next number. -/
theorem AcceptedBy.advance {before : Option Kever} {parsed : ParsedMessage} {r : ProcessResult}
    {sigs : Option Bytes} {k : Kever} (h : AcceptedBy X before parsed r sigs k) :
    k.state.pfx = r.pfx ∧ k.state.lastEventDigest = r.said ∧ k.state.sn = r.sn ∧
      r.sn < u64Bound ∧ k.incepted = true ∧
      ((before = none ∧ isInception r.ilk ∧ r.sn = 0 ∧ CesrText X r.pfx) ∨
        ∃ k₀, before = some k₀ ∧ isUpdate r.ilk ∧ k₀.state.pfx = r.pfx ∧
          r.sn = u64Succ k₀.state.sn) := by
  obtain ⟨hpfx, hsn, hsaid, -⟩ := Serder.header_eq_ok.1 h.header
  have hi : parsed.serder.sad.get "i" = some (.string r.pfx) := Serder.textField_eq_ok.1 hpfx
  have hd : parsed.serder.sad.get "d" = some (.string r.said) := Serder.textField_eq_ok.1 hsaid
  obtain ⟨text, hs, hnum⟩ := Serder.sn_eq_ok.1 hsn
  have hlt := Serder.sn_lt hsn
  cases h with
  | inception _ _ hilk hnone hverify =>
      obtain ⟨verfers, -, hnew, -⟩ := verifyInception_eq_ok.1 hverify
      obtain ⟨-, hok, hincept⟩ := Kever.newFromParts_eq_ok.1 hnew
      obtain ⟨hi', hd', -⟩ := Kever.incept_fields hincept
      have hcesr := Kever.incept_cesrText hok hincept
      obtain ⟨icp, hicp, -, -, -, hstate, hinc⟩ := Kever.incept_eq_ok.1 hincept
      obtain ⟨hzero, bt, -, -, hstate⟩ := KeyState.fromInception_eq_ok.1 hstate
      obtain ⟨-, -, hs'⟩ := InceptionEvent.fields hicp
      rw [hi, Option.some_inj, Value.string.injEq] at hi'
      rw [hd, Option.some_inj, Value.string.injEq] at hd'
      rw [hs, Option.some_inj, Value.string.injEq] at hs'
      rw [← hs', hnum, Option.some_inj] at hzero
      have hksn : k.state.sn = 0 := by
        rw [hstate]
        rfl
      rw [← hi'] at hcesr
      exact ⟨hi'.symm, hd'.symm, hksn.trans hzero.symm, hlt, hinc,
        Or.inl ⟨hnone, hilk, hzero, hcesr⟩⟩
  | @update _ _ k₀ t _ _ hilk hsome hverify =>
      obtain ⟨hverify, -⟩ := verifyNext_eq_ok.1 hverify
      obtain ⟨hinc, -, ilk, text', -, hs', hnum', hnext⟩ := Kever.verifyUpdateOwned_eq_ok.1 hverify
      obtain ⟨hpfx', hi', -, hd', hsn'⟩ := Kever.nextState_fields hnext
      rw [hi, Option.some_inj, Value.string.injEq] at hi'
      rw [hd, Option.some_inj, Value.string.injEq] at hd'
      rw [hs, Option.some_inj, Value.string.injEq] at hs'
      rw [← hs', hnum, Option.some_inj] at hnum'
      exact ⟨hpfx'.trans hi'.symm, hd'.symm, hsn'.trans hnum'.symm, hlt, hinc,
        Or.inr ⟨k₀, hsome, hilk, hi'.symm, hnum'⟩⟩

/-! ### A verifier and the log of its identifier -/

variable (X) in
/-- The log of an identifier goes up to its verifier's sequence number and ends with the last
digest. -/
structure Tracks (log : Table String String) (pfx : String) (k : Kever) : Prop where
  pfx_eq : k.state.pfx = pfx
  cesr : CesrText X pfx
  sn_lt : k.state.sn < u64Bound
  incepted : k.incepted = true
  seen : ∀ sn ≤ k.state.sn, (log.get (snKey pfx sn)).isSome
  last : log.get (snKey pfx k.state.sn) = some k.state.lastEventDigest

variable {kevers : Table String Kever} {log : Table String String}

/-- **An accepted event and its log entry**, when the next number is not zero again. -/
theorem tracks_put (hall : ∀ pfx k, kevers.get pfx = some k → Tracks X log pfx k)
    {parsed : ParsedMessage} {r : ProcessResult} {sigs : Option Bytes} {k' : Kever}
    (hacc : AcceptedBy X (kevers.get r.pfx) parsed r sigs k')
    (hnext : ∀ k₀, kevers.get r.pfx = some k₀ → u64Succ k₀.state.sn = k₀.state.sn + 1) :
    ∀ pfx k, (kevers.put r.pfx k').get pfx = some k →
      Tracks X (log.put (snKey r.pfx r.sn) r.said) pfx k := by
  intro pfx k hk
  obtain ⟨hpfx, hdigest, hsn, hlt, hinc, hkind⟩ := hacc.advance
  rw [Table.get_put] at hk
  split at hk
  · rename_i heq
    obtain rfl := Option.some_inj.1 hk
    rw [heq]
    have hlast : (log.put (snKey r.pfx r.sn) r.said).get (snKey r.pfx k'.state.sn) =
        some k'.state.lastEventDigest := by
      rw [hsn, hdigest]
      exact Table.get_put_self _ _ _
    have hsome : ((log.put (snKey r.pfx r.sn) r.said).get (snKey r.pfx r.sn)).isSome := by
      rw [Table.get_put_self]
      rfl
    rcases hkind with ⟨-, -, hzero, hcesr⟩ | ⟨k₀, hk₀, -, -, hsucc⟩
    · refine ⟨hpfx, hcesr, hsn ▸ hlt, hinc, fun sn hle => ?_, hlast⟩
      have hsn0 : sn = r.sn := by omega
      rw [hsn0]
      exact hsome
    · have htracks := hall r.pfx k₀ hk₀
      rw [hnext k₀ hk₀] at hsucc
      refine ⟨hpfx, htracks.cesr, hsn ▸ hlt, hinc, fun sn hle => ?_, hlast⟩
      by_cases hnew : sn = r.sn
      · rw [hnew]
        exact hsome
      · exact Table.get_put_isSome (htracks.seen sn (by omega)) _ _
  · rename_i hne
    have htracks := hall pfx k hk
    refine ⟨htracks.pfx_eq, htracks.cesr, htracks.sn_lt, htracks.incepted, fun sn hle =>
      Table.get_put_isSome (htracks.seen sn hle) _ _, ?_⟩
    have hkey : snKey pfx k.state.sn ≠ snKey r.pfx r.sn :=
      fun heq => hne (snKey_inj htracks.sn_lt hlt heq).1
    rw [Table.get_put_of_ne _ hkey]
    exact htracks.last

variable (X) in
/-- The verifiers and a log are in step: the log has what the verifiers have accepted and nothing
else. -/
structure Synced (kevers : Table String Kever) (log : Table String String) : Prop where
  tracks : ∀ pfx k, kevers.get pfx = some k → Tracks X log pfx k
  known : ∀ key said, log.get key = some said → ∃ pfx k sn, kevers.get pfx = some k ∧
    key = snKey pfx sn ∧ sn ≤ k.state.sn

theorem synced_empty : Synced X .empty .empty where
  tracks := by
    intro pfx k hk
    cases hk
  known := by
    intro key said hkey
    cases hkey

theorem Synced.put (h : Synced X kevers log) {parsed : ParsedMessage} {r : ProcessResult}
    {sigs : Option Bytes} {k' : Kever} (hacc : AcceptedBy X (kevers.get r.pfx) parsed r sigs k')
    (hnext : ∀ k₀, kevers.get r.pfx = some k₀ → u64Succ k₀.state.sn = k₀.state.sn + 1) :
    Synced X (kevers.put r.pfx k') (log.put (snKey r.pfx r.sn) r.said) := by
  refine ⟨tracks_put h.tracks hacc hnext, fun key said hkey => ?_⟩
  obtain ⟨-, -, hsn, -, -, hkind⟩ := hacc.advance
  rw [Table.get_put] at hkey
  split at hkey
  · rename_i heq
    exact ⟨r.pfx, k', r.sn, Table.get_put_self _ _ _, heq, le_of_eq hsn.symm⟩
  · obtain ⟨pfx, k, sn, hk, rfl, hle⟩ := h.known key said hkey
    by_cases hpfx : pfx = r.pfx
    · refine ⟨r.pfx, k', sn, Table.get_put_self _ _ _, by rw [hpfx], ?_⟩
      rw [hpfx] at hk
      rcases hkind with ⟨hnone, -⟩ | ⟨k₀, hk₀, -, -, hsucc⟩
      · rw [hnone] at hk
        cases hk
      · obtain rfl := Option.some_inj.1 (hk.symm.trans hk₀)
        rw [hnext k hk] at hsucc
        omega
    · refine ⟨pfx, k, sn, ?_, rfl, hle⟩
      rw [Table.get_put_of_ne _ hpfx]
      exact hk

/-! ### Runs of a judge -/

variable (X disk) in
/-- The judge over `store` after a run. -/
def runJudge (store : Store) (msgs : List Bytes) : Judge :=
  run (stepJudge X disk) (Judge.new store) msgs

theorem runJudge_concat (store : Store) (msgs : List Bytes) (data : Bytes) :
    runJudge X disk store (msgs ++ [data]) = stepJudge X disk (runJudge X disk store msgs) data :=
  run_concat _ _ _

theorem runJudge_append (store : Store) (msgs more : List Bytes) :
    runJudge X disk store (msgs ++ more) =
      run (stepJudge X disk) (runJudge X disk store msgs) more :=
  run_append _ _ _

/-- The next number of a verifier is not zero again when nothing has been seen there. -/
theorem Tracks.next {pfx : String} {k : Kever} (h : Tracks X log pfx k)
    (hunseen : log.get (snKey pfx (u64Succ k.state.sn)) = none) :
    u64Succ k.state.sn = k.state.sn + 1 := by
  have hlt := h.sn_lt
  by_cases hfits : k.state.sn + 1 < u64Bound
  · exact u64Succ_of_lt hfits
  · -- the number wraps to zero, which has been seen
    have hzero : u64Succ k.state.sn = 0 := by
      have hbound : k.state.sn + 1 = u64Bound := by omega
      unfold u64Succ
      rw [hbound, Nat.mod_self]
    have hseen := h.seen 0 (Nat.zero_le _)
    rw [hzero] at hunseen
    rw [hunseen] at hseen
    cases hseen

theorem AdmitsFirst.next {n n' : Node} {parsed : ParsedMessage} {r : ProcessResult}
    {sigs : Option Bytes} {k : Kever} (h : AdmitsFirst X n parsed r sigs k n')
    (htracks : ∀ pfx k, n.kevers.get pfx = some k → Tracks X n.store.tables.fels pfx k) :
    ∀ k₀, n.kevers.get r.pfx = some k₀ → u64Succ k₀.state.sn = k₀.state.sn + 1 := by
  intro k₀ hk₀
  obtain ⟨-, -, -, -, -, hkind⟩ := h.accepted.advance
  rcases hkind with ⟨hnone, -⟩ | ⟨k₁, hk₁, -, -, hsucc⟩
  · rw [hnone] at hk₀
    cases hk₀
  · obtain rfl := Option.some_inj.1 (hk₀.symm.trans hk₁)
    refine (htracks _ _ hk₀).next ?_
    rw [← hsucc]
    exact h.unseen

/-- **The first-seen log has all of a verifier's events**, whatever was in the store at first. -/
theorem tracks_runJudge (store : Store) (msgs : List Bytes) :
    ∀ pfx k, (runJudge X disk store msgs).node.kevers.get pfx = some k →
      Tracks X (runJudge X disk store msgs).node.store.tables.fels pfx k := by
  induction msgs using List.reverseRecOn with
  | nil =>
      intro pfx k hk
      cases hk
  | append_singleton msgs data ih =>
      rw [runJudge_concat]
      rcases stepJudge_cases X disk (runJudge X disk store msgs) data with
        hquiet | ⟨parsed, size, r, sigs, k, -, -, hadmits⟩
      · rw [hquiet.kevers, hquiet.fels]
        exact ih
      · rw [hadmits.kevers, hadmits.tables, Tables.putLogged_fels]
        exact tracks_put ih hadmits.accepted (hadmits.next ih)

/-- From an empty store, the first-seen log has nothing else. -/
theorem synced_runJudge (msgs : List Bytes) :
    Synced X (runJudge X disk .empty msgs).node.kevers
      (runJudge X disk .empty msgs).node.store.tables.fels := by
  induction msgs using List.reverseRecOn with
  | nil => exact synced_empty
  | append_singleton msgs data ih =>
      rw [runJudge_concat]
      rcases stepJudge_cases X disk (runJudge X disk .empty msgs) data with
        hquiet | ⟨parsed, size, r, sigs, k, -, -, hadmits⟩
      · rw [hquiet.kevers, hquiet.fels]
        exact ih
      · rw [hadmits.kevers, hadmits.tables, Tables.putLogged_fels]
        exact ih.put hadmits.accepted (hadmits.next ih.tracks)

/-! ### An instance -/

theorem Toy.digit_ne_dot (n : ℕ) : Toy.digit n ≠ 46 := by
  have h : (Toy.digit n).toNat ≠ 46 := by
    unfold Toy.digit
    rw [UInt8.toNat_ofNat']
    split_ifs <;> omega
  intro heq
  exact h (congrArg UInt8.toNat heq)

theorem Toy.dot_not_mem_encode (bs : Bytes) : 46 ∉ Toy.encode bs := by
  fun_induction Toy.encode bs with
  | case1 a b c bs n ih =>
      simp only [List.mem_cons, not_or]
      exact ⟨(Toy.digit_ne_dot _).symm, (Toy.digit_ne_dot _).symm, (Toy.digit_ne_dot _).symm,
        (Toy.digit_ne_dot _).symm, ih⟩
  | case2 => exact List.not_mem_nil

/-- The toy primitives have no dot in them. -/
theorem noSeparator_toy (digest : Bytes → Bytes) : NoSeparator (Toy.externals digest) := by
  intro text htext
  obtain ⟨m, hm⟩ := htext
  have hcode := (Toy.matterQb64_eq_ok hm).1
  have htext : text = Toy.primitiveText m.code m.raw := by
    change Toy.matterQb64 m = .ok text at hm
    unfold Toy.matterQb64 at hm
    simp only at hm
    split at hm
    · exact (Except.ok.inj hm).symm
    · cases hm
  rw [htext]
  unfold DotFree Toy.primitiveText
  simp only [String.toList_append, List.mem_append, not_or]
  constructor
  · simp only [List.mem_cons, List.not_mem_nil, or_false] at hcode
    rcases hcode with h | h | h | h | h | h <;> (rw [h]; decide)
  · intro hdot
    unfold textOf at hdot
    rw [String.toList_ofList, List.mem_map] at hdot
    obtain ⟨b, hb, hchar⟩ := hdot
    have hnat : b.toNat = 46 := by
      have hvalid : b.toNat.isValidChar := Or.inl (b.toNat_lt.trans (by decide))
      have hto := congrArg Char.toNat hchar
      rw [Char.toNat_ofNat, if_pos hvalid] at hto
      exact hto
    obtain rfl : b = 46 := UInt8.toNat_inj.1 hnat
    exact Toy.dot_not_mem_encode _ (List.mem_of_mem_drop hb)

end Keri
