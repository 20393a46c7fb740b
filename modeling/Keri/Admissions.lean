/-
**Admissions.**

What is in the first-seen log of a judge was put there by some message of its run: the event was
verified, by itself or against the verifier of its identifier, at a moment when nothing had been
seen at its place.

* `Keri.AdmittedAt` — the message of a run at which an event was admitted, and what was before it;
* `Keri.AdmittedAt.seen` — what was admitted stays first seen;
* `Keri.exists_admittedAt` — **from an empty store, every first-seen event was admitted**;
* `Keri.AdmittedAt.verified` — its SAID had been verified.
-/

import Keri.FirstSeen
import Keri.StoredBodies

set_option relaxedAutoImplicit false
set_option autoImplicit false

namespace Keri

open Outcome Machine

variable (X : Externals) (disk : Disk)

/-- The run comes to a message, after `pre`, with which an event is admitted. -/
def AdmittedAt (store : Store) (msgs pre : List Bytes) (parsed : ParsedMessage)
    (r : ProcessResult) (sigs : Option Bytes) (k : Kever) : Prop :=
  ∃ data post size, msgs = pre ++ data :: post ∧ parseNext X data = .ok (parsed, size) ∧
    AdmitsFirst X (runJudge X disk store pre).node parsed r sigs k
      (runJudge X disk store (pre ++ [data])).node

variable {X disk} {store : Store} {msgs pre : List Bytes} {parsed : ParsedMessage}
  {r : ProcessResult} {sigs : Option Bytes} {k : Kever}

theorem AdmittedAt.admits (h : AdmittedAt X disk store msgs pre parsed r sigs k) :
    ∃ n', AdmitsFirst X (runJudge X disk store pre).node parsed r sigs k n' := by
  obtain ⟨data, post, size, -, -, hadmits⟩ := h
  exact ⟨_, hadmits⟩

theorem AdmittedAt.accepted (h : AdmittedAt X disk store msgs pre parsed r sigs k) :
    AcceptedBy X ((runJudge X disk store pre).node.kevers.get r.pfx) parsed r sigs k := by
  obtain ⟨n', hadmits⟩ := h.admits
  exact hadmits.accepted

/-- What was admitted stays first seen. -/
theorem AdmittedAt.seen (h : AdmittedAt X disk store msgs pre parsed r sigs k) :
    (runJudge X disk store msgs).node.store.tables.fels.get (snKey r.pfx r.sn) = some r.said := by
  obtain ⟨data, post, size, rfl, -, hadmits⟩ := h
  have hsplit : pre ++ data :: post = (pre ++ [data]) ++ post := by simp
  rw [hsplit, runJudge_append]
  refine firstSeen_run post ?_
  rw [hadmits.tables, Tables.putLogged_fels]
  exact Table.get_put_self _ _ _

/-- What is first seen after a message and was not before it, was admitted with it. -/
theorem admittedAt_of_step {data : Bytes} (post : List Bytes) {pfx said : String} {sn : ℕ}
    (hsn : sn < u64Bound)
    (hbefore : ¬ (runJudge X disk store pre).node.store.tables.fels.get (snKey pfx sn) = some said)
    (hafter : (runJudge X disk store (pre ++ [data])).node.store.tables.fels.get (snKey pfx sn) =
      some said) :
    ∃ parsed r sigs k, AdmittedAt X disk store (pre ++ data :: post) pre parsed r sigs k ∧
      r.pfx = pfx ∧ r.sn = sn ∧ r.said = said := by
  rw [runJudge_concat] at hafter
  rcases stepJudge_cases X disk (runJudge X disk store pre) data with
    hquiet | ⟨parsed, size, r, sigs, k, hparse, -, hadmits⟩
  · rw [hquiet.fels] at hafter
    exact absurd hafter hbefore
  · rw [hadmits.tables, Tables.putLogged_fels, Table.get_put] at hafter
    split at hafter
    · rename_i hkey
      obtain ⟨-, -, -, hlt, -⟩ := hadmits.accepted.advance
      obtain ⟨rfl, rfl⟩ := snKey_inj hsn hlt hkey
      refine ⟨parsed, r, sigs, k, ⟨data, post, size, rfl, hparse, ?_⟩, rfl, rfl,
        Option.some_inj.1 hafter⟩
      rw [runJudge_concat]
      exact hadmits
    · exact absurd hafter hbefore

/-- **From an empty store, every first-seen event was admitted.** -/
theorem exists_admittedAt {pfx said : String} {sn : ℕ} (hsn : sn < u64Bound)
    (h : (runJudge X disk .empty msgs).node.store.tables.fels.get (snKey pfx sn) = some said) :
    ∃ pre parsed r sigs k, AdmittedAt X disk .empty msgs pre parsed r sigs k ∧ r.pfx = pfx ∧
      r.sn = sn ∧ r.said = said := by
  have hstart : ¬ (Judge.new .empty).node.store.tables.fels.get (snKey pfx sn) = some said := by
    intro hnone
    cases hnone
  obtain ⟨pre, data, post, rfl, hbefore, hafter⟩ := exists_step_of_run
    (P := fun j : Judge => j.node.store.tables.fels.get (snKey pfx sn) = some said) hstart h
  refine ⟨pre, admittedAt_of_step post hsn hbefore ?_⟩
  rw [runJudge_concat]
  exact hafter

/-- The identifier of an admitted event is an encoded primitive. -/
theorem AdmittedAt.cesrText (h : AdmittedAt X disk store msgs pre parsed r sigs k) :
    CesrText X r.pfx := by
  obtain ⟨-, -, -, -, -, hkind⟩ := h.accepted.advance
  rcases hkind with ⟨-, -, -, hcesr⟩ | ⟨k₀, hk₀, -⟩
  · exact hcesr
  · exact (tracks_runJudge store pre _ _ hk₀).cesr

/-- The SAID of an admitted event had been verified. -/
theorem AdmittedAt.verified (hX : SaidLaws X)
    (h : AdmittedAt X disk store msgs pre parsed r sigs k) : (entryOf parsed r).Verified X := by
  obtain ⟨m, hm⟩ := h.cesrText
  refine (h.accepted.entry fun k₀ hk₀ => ?_).1
  exact ⟨(tracks_runJudge store pre _ _ hk₀).pfx_eq, m, hX.decode_encode hm⟩

end Keri
