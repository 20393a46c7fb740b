/-
**Verifiers agree.**

Two verifiers that have accepted events on their own, in whatever order the events and others that
were refused came, agree as soon as their last digests do.  An accepted event is determined by its
SAID and names the SAID of the event before it, so equal last digests mean equal logs back to the
inception, and the key state is a function of the log.

* `Keri.Starts`, `Keri.Extends` — an event as a step of the key state, its signatures aside;
* `Keri.derives_run` — the log of a verifier leads to its key state;
* `Keri.verifiers_agree` — **equal last digests, equal key states and equal logs**.
-/

import Keri.Kel
import Keri.StoredBodies

set_option relaxedAutoImplicit false
set_option autoImplicit false

namespace Keri

open Outcome Machine

variable (X : Externals)

/-! ### Events as steps of the key state -/

/-- The SAID of a body verifies, and the body leaves the given last digest and identifier. -/
structure Leaves (sad : Value) (s : KeyState) : Prop where
  said_ok : ∃ kind, verifySaid X sad "d" "E" kind = .ok ()
  said : sad.get "d" = some (.string s.lastEventDigest)
  pfx : sad.get "i" = some (.string s.pfx)
  primitive : IsPrimitive X s.pfx

/-- The body is an inception and gives the key state. -/
structure Starts (sad : Value) (s : KeyState) : Prop extends Leaves X sad s where
  ilk : sad.get "t" = some (.string "icp")
  state : ∃ icp, InceptionEvent.fromValue sad = .ok icp ∧ KeyState.fromInception icp = .ok s

/-- The body is a rotation or an interaction and takes one key state to the next. -/
structure Extends (s : KeyState) (sad : Value) (t : KeyState) : Prop extends Leaves X sad t where
  prior : sad.get "p" = some (.string s.lastEventDigest)
  state : (sad.get "t" = some (.string "rot") ∧ ∃ rot, RotationEvent.fromValue sad = .ok rot ∧
      s.applyRotation X rot = .ok t) ∨
    (sad.get "t" = some (.string "ixn") ∧ ∃ ixn, InteractionEvent.fromValue sad = .ok ixn ∧
      s.applyInteraction ixn = .ok t)

variable {X}

/-- Bodies that leave one last digest are equal. -/
theorem Leaves.sad_eq (hX : SaidLaws X) {sad sad' : Value} {s s' : KeyState} (h : Leaves X sad s)
    (h' : Leaves X sad' s') (hlast : s.lastEventDigest = s'.lastEventDigest) : sad = sad' := by
  obtain ⟨kind, hsaid⟩ := h.said_ok
  obtain ⟨kind', hsaid'⟩ := h'.said_ok
  exact (sad_eq_of_said_eq hX hsaid hsaid' h.said (hlast ▸ h'.said) h.pfx h'.pfx h.primitive
    h'.primitive).2

theorem Starts.state_eq {sad : Value} {s t : KeyState} (h : Starts X sad s)
    (h' : Starts X sad t) : s = t := by
  obtain ⟨icp, hicp, hstate⟩ := h.state
  obtain ⟨icp', hicp', hstate'⟩ := h'.state
  obtain rfl := Except.ok.inj (hicp.symm.trans hicp')
  exact Except.ok.inj (hstate.symm.trans hstate')

theorem Extends.state_eq {sad : Value} {r s t : KeyState} (h : Extends X r sad s)
    (h' : Extends X r sad t) : s = t := by
  rcases h.state with ⟨hilk, e, he, hstate⟩ | ⟨hilk, e, he, hstate⟩
  · rcases h'.state with ⟨-, e', he', hstate'⟩ | ⟨hilk', -⟩
    · obtain rfl := Except.ok.inj (he.symm.trans he')
      exact Except.ok.inj (hstate.symm.trans hstate')
    · rw [hilk, Option.some_inj, Value.string.injEq] at hilk'
      exact absurd hilk' (by decide)
  · rcases h'.state with ⟨hilk', -⟩ | ⟨-, e', he', hstate'⟩
    · rw [hilk, Option.some_inj, Value.string.injEq] at hilk'
      exact absurd hilk' (by decide)
    · obtain rfl := Except.ok.inj (he.symm.trans he')
      exact Except.ok.inj (hstate.symm.trans hstate')

/-- An inception extends nothing. -/
theorem Starts.not_extends {sad : Value} {r s t : KeyState} (h : Starts X sad s) :
    ¬ Extends X r sad t := by
  intro h'
  have hilk := h.ilk
  rcases h'.state with ⟨hilk', -⟩ | ⟨hilk', -⟩
  · rw [hilk, Option.some_inj, Value.string.injEq] at hilk'
    exact absurd hilk' (by decide)
  · rw [hilk, Option.some_inj, Value.string.injEq] at hilk'
    exact absurd hilk' (by decide)

/-- **Equal last digests, equal logs and equal key states**, for logs of events that lead to key
states. -/
theorem derives_eq_of_last (hX : SaidLaws X) {log log' : List Value} {s s' : KeyState}
    (h : Log.Derives (Starts X) (Extends X) log s) (h' : Log.Derives (Starts X) (Extends X) log' s')
    (hlast : s.lastEventDigest = s'.lastEventDigest) : log = log' ∧ s = s' := by
  have hleaves : ∀ {sad : Value} {t : KeyState},
      (Starts X sad t ∨ ∃ r, Extends X r sad t) → Leaves X sad t := by
    intro sad t hstep
    rcases hstep with hstep | ⟨r, hstep⟩
    · exact hstep.toLeaves
    · exact hstep.toLeaves
  refine Log.Derives.eq_of_tip KeyState.lastEventDigest ?_ (fun hs ht => hs.state_eq ht)
    (fun hs ht => hs.state_eq ht) (fun hs => hs.not_extends) ?_ h h' hlast
  · intro sad sad' s t hstep hstep' htip
    exact (hleaves hstep).sad_eq hX (hleaves hstep') htip
  · intro sad r r' s t hstep hstep'
    have hprior := hstep.prior
    rw [hstep'.prior, Option.some_inj, Value.string.injEq] at hprior
    exact hprior.symm

/-! ### Verifiers -/

/-- An accepted inception starts the key state of its verifier. -/
theorem starts_of_new {serder : Serder} {sigs : List Siger} {verfers : List Verfer} {k : Kever}
    (h : Kever.new X serder sigs verfers = .ok k) : Starts X serder.sad k.state := by
  obtain ⟨hilk, hsaid, hincept⟩ := Kever.new_eq_ok.1 h
  obtain ⟨hi, hd, hprim⟩ := Kever.incept_fields hincept
  obtain ⟨icp, hicp, -, -, -, hstate, -⟩ := Kever.incept_eq_ok.1 hincept
  exact ⟨⟨⟨serder.kind, hsaid⟩, hd, hi, hprim⟩, Serder.textField_eq_ok.1 hilk, icp, hicp, hstate⟩

/-- An accepted update takes the key state of its verifier to the next. -/
theorem extends_of_update {serder : Serder} {sigs : List Siger} {k k' : Kever}
    (hprim : IsPrimitive X k.state.pfx) (h : k.update X serder sigs = .ok k') :
    Extends X k.state serder.sad k'.state := by
  obtain ⟨t, hverify, rfl⟩ := Kever.update_eq_ok.1 h
  obtain ⟨-, hsaid, ilk, hilk, -, hnext⟩ := Kever.verifyUpdate_eq_ok.1 hverify
  obtain ⟨hpfx, hi, hp, hd, -⟩ := Kever.nextState_fields hnext
  have ht := Serder.textField_eq_ok.1 hilk
  change Extends X k.state serder.sad t
  rw [← hpfx] at hi hprim
  refine ⟨⟨⟨serder.kind, hsaid⟩, hd, hi, hprim⟩, hp, ?_⟩
  rcases Kever.nextState_eq_ok.1 hnext with
    ⟨rfl, -, rot, -, hrot, -, -, happly⟩ | ⟨rfl, ixn, -, hixn, -, -, happly⟩
  · exact Or.inl ⟨ht, rot, hrot, happly⟩
  · exact Or.inr ⟨ht, ixn, hixn, happly⟩

/-- **The log of a verifier leads to its key state.** -/
theorem derives_run {serder : Serder} {sigs : List Siger} {verfers : List Verfer} {k : Kever}
    (h : Kever.new X serder sigs verfers = .ok k) (attempts : List SignedEvent) :
    Log.Derives (Starts X) (Extends X)
      ((Tracked.run X ⟨k, [⟨serder, sigs⟩]⟩ attempts).log.map (·.serder.sad))
      (Tracked.run X ⟨k, [⟨serder, sigs⟩]⟩ attempts).kever.state ∧
    IsPrimitive X (Tracked.run X ⟨k, [⟨serder, sigs⟩]⟩ attempts).kever.state.pfx := by
  refine run_inv (P := fun t : Tracked => Log.Derives (Starts X) (Extends X)
    (t.log.map (·.serder.sad)) t.kever.state ∧ IsPrimitive X t.kever.state.pfx) attempts ?_ ?_
  · have hstarts := starts_of_new h
    exact ⟨.first hstarts, hstarts.primitive⟩
  · intro t e ht
    obtain ⟨hlog, hprim⟩ := ht
    unfold Tracked.attempt
    split
    · rename_i k' hupdate
      have hext := extends_of_update hprim hupdate
      rw [List.map_append]
      exact ⟨.next hlog hext, hext.primitive⟩
    · exact ⟨hlog, hprim⟩

/-- **Verifiers agree.**  Two verifiers, each built from an inception and driven by updates of its
own, that have the same last digest have the same key state, and have accepted the same bodies in
the same order. -/
theorem verifiers_agree (hX : SaidLaws X) {serder serder' : Serder} {sigs sigs' : List Siger}
    {verfers verfers' : List Verfer} {k k' : Kever} (h : Kever.new X serder sigs verfers = .ok k)
    (h' : Kever.new X serder' sigs' verfers' = .ok k') (attempts attempts' : List SignedEvent)
    (hlast : (Tracked.run X ⟨k, [⟨serder, sigs⟩]⟩ attempts).kever.state.lastEventDigest =
      (Tracked.run X ⟨k', [⟨serder', sigs'⟩]⟩ attempts').kever.state.lastEventDigest) :
    (Tracked.run X ⟨k, [⟨serder, sigs⟩]⟩ attempts).kever.state =
        (Tracked.run X ⟨k', [⟨serder', sigs'⟩]⟩ attempts').kever.state ∧
      (Tracked.run X ⟨k, [⟨serder, sigs⟩]⟩ attempts).log.map (·.serder.sad) =
        (Tracked.run X ⟨k', [⟨serder', sigs'⟩]⟩ attempts').log.map (·.serder.sad) := by
  obtain ⟨hlog, hstate⟩ := derives_eq_of_last hX (derives_run h attempts).1
    (derives_run h' attempts').1 hlast
  exact ⟨hstate, hlog⟩

/-! ### An instance -/

/-- An interaction after the inception, under a digest that is short on both. -/
def toyNextFields : Fields := Toy.ixnFields (Toy.keyText 1) toySaid "1"

abbrev toyChain : Externals :=
  Toy.externals (Toy.knownDigest [Toy.completedBytes toyFields, Toy.completedBytes toyNextFields])

theorem saidLaws_toyChain : SaidLaws toyChain := by
  refine saidLaws_toy (Toy.knownDigest_injective ?_)
  rw [List.length_cons, List.length_singleton]
  omega

/-- An event of the instance, signed by key 1. -/
def toyEvent (fields : Fields) : SignedEvent :=
  let digest := Toy.knownDigest [Toy.completedBytes toyFields, Toy.completedBytes toyNextFields]
  let serder := Toy.serderOf digest (Toy.print (Toy.complete digest fields))
  ⟨serder, [Toy.siger 1 0 serder.raw]⟩

/-- One verifier sees the interaction twice, the other once. -/
theorem verifiers_agree_toy : ∃ k,
    Kever.new toyChain (toyEvent toyFields).serder (toyEvent toyFields).sigs [Toy.verfer 1] =
      .ok k ∧
    (Tracked.run toyChain ⟨k, [toyEvent toyFields]⟩
      [toyEvent toyNextFields, toyEvent toyNextFields]).log.length = 2 ∧
    (Tracked.run toyChain ⟨k, [toyEvent toyFields]⟩
        [toyEvent toyNextFields, toyEvent toyNextFields]).kever.state =
      (Tracked.run toyChain ⟨k, [toyEvent toyFields]⟩ [toyEvent toyNextFields]).kever.state := by
  obtain ⟨k, hk, hrun⟩ := exists_ok_of_any
    (x := Kever.new toyChain (toyEvent toyFields).serder (toyEvent toyFields).sigs [Toy.verfer 1])
    (p := fun k => decide ((Tracked.run toyChain ⟨k, [toyEvent toyFields]⟩
        [toyEvent toyNextFields, toyEvent toyNextFields]).log.length = 2 ∧
      (Tracked.run toyChain ⟨k, [toyEvent toyFields]⟩
          [toyEvent toyNextFields, toyEvent toyNextFields]).kever.state.lastEventDigest =
        (Tracked.run toyChain ⟨k, [toyEvent toyFields]⟩
          [toyEvent toyNextFields]).kever.state.lastEventDigest)) (by decide +kernel)
  obtain ⟨hlen, hlast⟩ := of_decide_eq_true hrun
  generalize toyEvent toyFields = e at hk hlen hlast ⊢
  exact ⟨k, hk, hlen, (verifiers_agree saidLaws_toyChain hk hk _ _ hlast).1⟩

end Keri
