/-
**Key event logs.**

What the log of an identifier is, said without reference to how it was built: numbered from zero,
chained by SAIDs, started by an inception, and with every event authorised by the keys in force.
A `Kever` that is driven by `update` keeps exactly such a log.

* `Keri.SignedBy` — a set of distinct key indices that satisfies a threshold has signed a message;
* `Keri.Establishment`, `Keri.establishment` — what an inception or rotation puts in force;
* `Keri.EventOk` — what an event of a log has to meet, given the events before it;
* `Keri.KelOf` — a log and the key state it amounts to;
* `Keri.Tracked.run` — a verifier driven by any sequence of updates, with the events it accepted;
* `Keri.Tracked.kelOf_run` — **the accepted events form a key event log, and the verifier's state
  is the one it amounts to**.
-/

import Keri.Kever
import Keri.Toy
import Keri.Lib.Log

set_option relaxedAutoImplicit false
set_option autoImplicit false

namespace Keri

open Outcome

variable (X : Externals)

/-! ### Authority -/

/-- A key text stands for a verification key: it is read as it, or written from it. -/
def KeyOf (key : String) (verfer : Verfer) : Prop :=
  Verfer.fromQb64 X key = .ok verfer ∨ verfer.qb64 X = .ok key

/-- Key number `i` has signed the message. -/
def KeySigned (keys : List String) (message : Bytes) (sigs : List Siger) (i : ℕ) : Prop :=
  ∃ key verfer sig, keys[i]? = some key ∧ KeyOf X key verfer ∧ sig ∈ sigs ∧ sig.index = i ∧
    verfer.verify X message sig.raw = .ok true

/-- Distinct key indices that satisfy the threshold have signed the message. -/
def SignedBy (keys : List String) (threshold : Threshold) (message : Bytes)
    (sigs : List Siger) : Prop :=
  ∃ indices : List ℕ, indices.Nodup ∧ (∀ i ∈ indices, KeySigned X keys message sigs i) ∧
    threshold.isSatisfied indices keys.length = true

/-- What an establishment event puts in force. -/
structure Establishment where
  said : String
  keys : List String
  threshold : Threshold
  nextKeys : List String
  nextThreshold : Threshold
  deriving DecidableEq, Repr

/-- What an inception puts in force. -/
def InceptionEvent.installs (e : InceptionEvent) : Establishment :=
  { said := e.said, keys := e.keys, threshold := e.keysThreshold, nextKeys := e.nextKeys,
    nextThreshold := e.nextThreshold }

/-- What a rotation puts in force. -/
def RotationEvent.installs (e : RotationEvent) : Establishment :=
  { said := e.said, keys := e.keys, threshold := e.keysThreshold, nextKeys := e.nextKeys,
    nextThreshold := e.nextThreshold }

/-- What is in force in a key state. -/
def KeyState.inForce (s : KeyState) : Establishment :=
  { said := s.said, keys := s.keys, threshold := s.threshold, nextKeys := s.nextKeys,
    nextThreshold := s.nextThreshold }

/-- What an inception or a rotation puts in force; no other event does. -/
def establishment (serder : Serder) : Option Establishment :=
  match serder.ilk with
  | .error _ => none
  | .ok ilk =>
      if ilk = "icp" then
        (InceptionEvent.fromValue serder.sad).toOption.map InceptionEvent.installs
      else if ilk = "rot" then
        (RotationEvent.fromValue serder.sad).toOption.map RotationEvent.installs
      else none

/-! ### Logs -/

/-- An event with its signatures. -/
structure SignedEvent where
  serder : Serder
  sigs : List Siger
  deriving DecidableEq

/-- What the latest establishment event of a log has put in force. -/
def inForce (log : List SignedEvent) : Option Establishment :=
  Log.latest (fun e => establishment e.serder) log

/-- Is the event signed by these keys? -/
def SignedEvent.By (e : SignedEvent) (est : Establishment) : Prop :=
  SignedBy X est.keys est.threshold e.serder.raw e.sigs

/-- What an event meets, given the events before it. -/
structure EventOk (pre : List SignedEvent) (e : SignedEvent) : Prop where
  /-- The event is numbered by its place. -/
  sn : e.serder.sn = .ok pre.length
  /-- All events are of one identifier. -/
  pfx : ∀ e' ∈ pre, e.serder.pfx = e'.serder.pfx
  /-- The event names the one before it. -/
  prior : ∀ e', pre.getLast? = some e' →
    ∃ d, e'.serder.said = .ok d ∧ e.serder.textField "p" = .ok d
  /-- The SAID is the digest of the event. -/
  said : e.serder.verifySaid X "E" = .ok ()
  /-- A log starts with an inception and goes on with rotations and interactions. -/
  ilk : if pre = [] then e.serder.ilk = .ok "icp"
    else e.serder.ilk = .ok "rot" ∨ e.serder.ilk = .ok "ixn"
  /-- An establishment event is signed by the keys it installs. -/
  signed : e.serder.ilk ≠ .ok "ixn" →
    ∃ est, establishment e.serder = some est ∧ e.By X est
  /-- A rotation installs the keys committed to by the establishment event before it. -/
  committed : e.serder.ilk = .ok "rot" →
    ∃ est prev, establishment e.serder = some est ∧ inForce pre = some prev ∧
      List.Forall₂ (KeyMatches X) est.keys prev.nextKeys
  /-- An interaction is signed by the keys in force. -/
  interaction : e.serder.ilk = .ok "ixn" → ∃ est, inForce pre = some est ∧ e.By X est

/-- A log, and the key state it amounts to. -/
structure KelOf (log : List SignedEvent) (s : KeyState) : Prop where
  /-- Every event is in order, chained and authorised. -/
  events : Log.Each (EventOk X) log
  /-- The sequence number is that of the last event. -/
  sn : log.length = s.sn + 1
  /-- The identifier is that of every event. -/
  pfx : ∀ e ∈ log, e.serder.pfx = .ok s.pfx
  /-- The last digest is the SAID of the last event. -/
  last : ∃ e, log.getLast? = some e ∧ e.serder.said = .ok s.lastEventDigest
  /-- Everything else is what the latest establishment event has put in force. -/
  inForce : inForce log = some s.inForce

/-! ### A verifier and the events it has accepted -/

/-- A verifier with its log. -/
structure Tracked where
  kever : Kever
  log : List SignedEvent
  deriving DecidableEq

namespace Tracked

/-- One call of `update`: an accepted event is logged, a refused one leaves everything as it
was. -/
def attempt (t : Tracked) (e : SignedEvent) : Tracked :=
  match t.kever.update X e.serder e.sigs with
  | .ok kever => { kever, log := t.log ++ [e] }
  | .error _ => t

/-- Any sequence of calls of `update`. -/
def run (t : Tracked) (attempts : List SignedEvent) : Tracked :=
  Machine.run (attempt X) t attempts

end Tracked

/-! ### Signatures that pass -/

variable {X}

/-- Signatures that pass under verification keys are signatures by the keys' texts. -/
theorem signedBy_of_verifySigs {keys : List String} {verfers : List Verfer} {message : Bytes}
    {sigs : List Siger} {threshold : Threshold} {u : Unit}
    (hkeys : List.Forall₂ (KeyOf X) keys verfers)
    (h : verifySigsStatic X message sigs verfers threshold = .ok u) :
    SignedBy X keys threshold message sigs := by
  obtain ⟨-, hsat⟩ := verifySigsStatic_eq_ok.1 h
  refine ⟨validIndices X message sigs verfers, validIndices_nodup sigs, ?_, ?_⟩
  · intro i hi
    obtain ⟨sig, hsig, hidx, verfer, hverfer, hok⟩ := mem_validIndices.1 hi
    have hlt : i < keys.length := by
      rw [hkeys.length_eq]
      exact (List.getElem?_eq_some_iff.1 hverfer).1
    obtain ⟨hlt', rfl⟩ := List.getElem?_eq_some_iff.1 hverfer
    have hkey : KeyOf X keys[i] verfers[i] := (List.forall₂_iff_get.1 hkeys).2 i hlt hlt'
    exact ⟨keys[i], verfers[i], sig, List.getElem?_eq_getElem hlt, hkey, hsig, hidx, hok⟩
  · rw [hkeys.length_eq]
    exact hsat

theorem keyOf_of_verfersFromKeys {keys : List String} {verfers : List Verfer}
    (h : Kever.verfersFromKeys X keys = .ok verfers) : List.Forall₂ (KeyOf X) keys verfers :=
  (Kever.verfersFromKeys_eq_ok.1 h).imp fun _ _ hk => Or.inl hk

theorem keyOf_of_checkKeys {keys : List String} {verfers : List Verfer} {u : Unit}
    (h : Kever.checkKeys X keys verfers = .ok u) : List.Forall₂ (KeyOf X) keys verfers :=
  (Kever.checkKeys_eq_ok.1 h).imp fun _ _ hk => Or.inr hk

/-! ### What an event puts in force -/

theorem establishment_icp {serder : Serder} {e : InceptionEvent}
    (hilk : serder.ilk = .ok "icp") (he : InceptionEvent.fromValue serder.sad = .ok e) :
    establishment serder = some e.installs := by
  simp [establishment, hilk, he, Except.toOption]

theorem establishment_rot {serder : Serder} {e : RotationEvent}
    (hilk : serder.ilk = .ok "rot") (he : RotationEvent.fromValue serder.sad = .ok e) :
    establishment serder = some e.installs := by
  simp [establishment, hilk, he, Except.toOption]

theorem establishment_ixn {serder : Serder} (hilk : serder.ilk = .ok "ixn") :
    establishment serder = none := by
  simp [establishment, hilk]

theorem inForce_concat_some {e : SignedEvent} {est : Establishment}
    (h : establishment e.serder = some est) (log : List SignedEvent) :
    Keri.inForce (log ++ [e]) = some est :=
  Log.latest_concat_some (f := fun e : SignedEvent => establishment e.serder) h log

theorem inForce_concat_none {e : SignedEvent} (h : establishment e.serder = none)
    (log : List SignedEvent) : Keri.inForce (log ++ [e]) = Keri.inForce log :=
  Log.latest_concat_none (f := fun e : SignedEvent => establishment e.serder) h log

/-! ### The first event -/

theorem textField_of_get {serder : Serder} {name t : String}
    (h : serder.sad.get name = some (.string t)) : serder.textField name = .ok t :=
  Serder.textField_eq_ok.2 h

/-- A new verifier's log is its inception. -/
theorem kelOf_new {serder : Serder} {sigs : List Siger} {verfers : List Verfer} {k : Kever}
    (h : Kever.new X serder sigs verfers = .ok k) : KelOf X [⟨serder, sigs⟩] k.state := by
  obtain ⟨hilk, hsaid, hincept⟩ := Kever.new_eq_ok.1 h
  obtain ⟨icp, hicp, hkeys, hsigs, -, hstate, -⟩ := Kever.incept_eq_ok.1 hincept
  obtain ⟨hsn, bt, -, -, hstate⟩ := KeyState.fromInception_eq_ok.1 hstate
  obtain ⟨hd, hi, hs⟩ := InceptionEvent.fields hicp
  have hest := establishment_icp hilk hicp
  rw [hstate]
  refine ⟨Log.each_singleton.2 ?_, rfl, ?_, ⟨_, rfl, textField_of_get hd⟩, ?_⟩
  · refine ⟨Serder.sn_eq_ok.2 ⟨_, hs, hsn⟩, by simp, by simp, hsaid, by simpa using hilk, ?_, ?_,
      ?_⟩
    · intro _
      exact ⟨_, hest, signedBy_of_verifySigs (keyOf_of_checkKeys hkeys) hsigs⟩
    · intro hrot
      rw [hilk] at hrot
      exact absurd (Except.ok.inj hrot) (by decide)
    · intro hixn
      rw [hilk] at hixn
      exact absurd (Except.ok.inj hixn) (by decide)
  · intro e he
    rw [List.mem_singleton] at he
    rw [he]
    exact textField_of_get hi
  · exact inForce_concat_some hest []

/-! ### The next event -/

/-- The parts of `EventOk` that do not depend on the kind of event. -/
theorem chain_of_kelOf {log : List SignedEvent} {s : KeyState} {serder : Serder}
    (hkel : KelOf X log s) (hi : serder.sad.get "i" = some (.string s.pfx))
    (hp : serder.sad.get "p" = some (.string s.lastEventDigest)) :
    (∀ e' ∈ log, serder.pfx = e'.serder.pfx) ∧
      (∀ e', log.getLast? = some e' →
        ∃ d, e'.serder.said = .ok d ∧ serder.textField "p" = .ok d) := by
  refine ⟨?_, ?_⟩
  · intro e' he'
    rw [hkel.pfx e' he']
    exact textField_of_get hi
  · intro e' he'
    obtain ⟨e, hlast, hsaid⟩ := hkel.last
    rw [hlast, Option.some_inj] at he'
    exact ⟨s.lastEventDigest, he' ▸ hsaid, textField_of_get hp⟩

theorem log_ne_nil {log : List SignedEvent} {s : KeyState} (hkel : KelOf X log s) : log ≠ [] := by
  intro hnil
  have := hkel.sn
  simp [hnil] at this

/-- What the log of a state becomes when an event is appended, apart from `EventOk`. -/
theorem kelOf_concat {log : List SignedEvent} {s t : KeyState} {e : SignedEvent}
    (hkel : KelOf X log s) (he : EventOk X log e) (hsn : t.sn = s.sn + 1)
    (hpfx : t.pfx = s.pfx) (hi : e.serder.sad.get "i" = some (.string s.pfx))
    (hd : e.serder.sad.get "d" = some (.string t.lastEventDigest))
    (hforce : inForce (log ++ [e]) = some t.inForce) : KelOf X (log ++ [e]) t := by
  refine ⟨Log.each_concat.2 ⟨hkel.events, he⟩, ?_, ?_, ⟨e, by simp, textField_of_get hd⟩, hforce⟩
  · rw [List.length_append, List.length_singleton, hkel.sn, hsn]
  · intro e' he'
    rw [hpfx]
    rcases List.mem_append.1 he' with he' | he'
    · exact hkel.pfx e' he'
    · rw [List.mem_singleton] at he'
      rw [he']
      exact textField_of_get hi

/-- **One step**: an accepted event extends the log of the state it was accepted in. -/
theorem kelOf_update {k k' : Kever} {log : List SignedEvent} {e : SignedEvent}
    (hkel : KelOf X log k.state) (hbound : k.state.sn + 1 < u64Bound)
    (h : k.update X e.serder e.sigs = .ok k') : KelOf X (log ++ [e]) k'.state := by
  obtain ⟨t, hverify, rfl⟩ := Kever.update_eq_ok.1 h
  obtain ⟨-, hsaid, ilk, hilk, hsn, hnext⟩ := Kever.verifyUpdate_eq_ok.1 hverify
  change KelOf X (log ++ [e]) t
  rw [u64Succ_of_lt hbound, ← hkel.sn] at hsn
  have hne := log_ne_nil hkel
  rcases Kever.nextState_eq_ok.1 hnext with
    ⟨rfl, -, rot, verfers, hrot, hverfers, hsigs, happly⟩ |
    ⟨rfl, ixn, verfers, hixn, hverfers, hsigs, happly⟩
  · -- a rotation: it takes over what is in force
    obtain ⟨-, hpfx, hprior, hcommit, bt, -, -, rfl⟩ := KeyState.applyRotation_eq_ok.1 happly
    obtain ⟨hd, hi, -, hp⟩ := RotationEvent.fields hrot
    rw [hpfx] at hi
    rw [hprior] at hp
    obtain ⟨hchainPfx, hchainPrior⟩ := chain_of_kelOf hkel hi hp
    have hest := establishment_rot hilk hrot
    have hby := signedBy_of_verifySigs (keyOf_of_verfersFromKeys hverfers) hsigs
    refine kelOf_concat hkel ?_ (t := k.state.afterRotation rot bt) (u64Succ_of_lt hbound) rfl
      hi hd (inForce_concat_some hest log)
    refine ⟨hsn, hchainPfx, hchainPrior, hsaid, ?_, fun _ => ⟨_, hest, hby⟩,
      fun _ => ⟨_, _, hest, hkel.inForce, hcommit⟩, ?_⟩
    · rw [if_neg hne]
      exact Or.inl hilk
    · intro hixn
      rw [hilk] at hixn
      exact absurd (Except.ok.inj hixn) (by decide)
  · -- an interaction: what is in force stays
    obtain ⟨-, hpfx, hprior, rfl⟩ := KeyState.applyInteraction_eq_ok.1 happly
    obtain ⟨hd, hi, -, hp⟩ := InteractionEvent.fields hixn
    rw [hpfx] at hi
    rw [hprior] at hp
    obtain ⟨hchainPfx, hchainPrior⟩ := chain_of_kelOf hkel hi hp
    have hby := signedBy_of_verifySigs (keyOf_of_verfersFromKeys hverfers) hsigs
    refine kelOf_concat hkel ?_ (t := k.state.afterInteraction ixn) (u64Succ_of_lt hbound) rfl
      hi hd ?_
    · refine ⟨hsn, hchainPfx, hchainPrior, hsaid, ?_, fun hne' => absurd hilk hne', ?_,
        fun _ => ⟨_, hkel.inForce, hby⟩⟩
      · rw [if_neg hne]
        exact Or.inr hilk
      · intro hrot
        rw [hilk] at hrot
        exact absurd (Except.ok.inj hrot) (by decide)
    · rw [inForce_concat_none (establishment_ixn hilk)]
      exact hkel.inForce

/-! ### Runs -/

namespace Tracked

theorem length_attempt_le (t : Tracked) (e : SignedEvent) :
    t.log.length ≤ (t.attempt X e).log.length := by
  unfold attempt
  split
  · simp
  · exact le_refl _

/-- **Accepted logs are chained and authorised.**  A verifier that starts from an accepted inception
and is driven by any sequence of updates, failed ones included, holds the state that its accepted
events amount to, as long as their number fits `u64`. -/
theorem kelOf_run {serder : Serder} {sigs : List Siger} {verfers : List Verfer} {k : Kever}
    (h : Kever.new X serder sigs verfers = .ok k) (attempts : List SignedEvent)
    (hbound : ((run X ⟨k, [⟨serder, sigs⟩]⟩ attempts).log.length ≤ u64Bound)) :
    KelOf X (run X ⟨k, [⟨serder, sigs⟩]⟩ attempts).log
      (run X ⟨k, [⟨serder, sigs⟩]⟩ attempts).kever.state := by
  -- the bound is on the final log; it holds all along because the log never shrinks
  induction attempts using List.reverseRecOn with
  | nil => exact kelOf_new h
  | append_singleton attempts e ih =>
      rw [run, Machine.run_concat] at hbound ⊢
      change ((run X ⟨k, [⟨serder, sigs⟩]⟩ attempts).attempt X e).log.length ≤ u64Bound at hbound
      have hkel := ih (le_trans (length_attempt_le _ e) hbound)
      change KelOf X ((run X ⟨k, [⟨serder, sigs⟩]⟩ attempts).attempt X e).log
        ((run X ⟨k, [⟨serder, sigs⟩]⟩ attempts).attempt X e).kever.state
      unfold attempt at hbound ⊢
      split
      · rename_i k' hupdate
        rw [hupdate] at hbound
        rw [List.length_append, List.length_singleton, hkel.sn] at hbound
        exact kelOf_update hkel (by omega) hupdate
      · exact hkel

/-- The calls of `update` that the next theorem makes: the second is refused. -/
def toyAttempts : List SignedEvent :=
  [⟨Toy.ixn, [Toy.siger 1 0 Toy.ixn.raw]⟩, ⟨Toy.rot, [Toy.siger 1 0 Toy.rot.raw]⟩,
    ⟨Toy.rot, [Toy.siger 2 0 Toy.rot.raw]⟩]

theorem kelOf_run_toy : ∃ k, Kever.new Toy.lib Toy.icp [Toy.siger 1 0 Toy.icp.raw]
      [Toy.verfer 1] = .ok k ∧
    (run Toy.lib ⟨k, [⟨Toy.icp, [Toy.siger 1 0 Toy.icp.raw]⟩]⟩ toyAttempts).log.length = 3 ∧
    KelOf Toy.lib (run Toy.lib ⟨k, [⟨Toy.icp, [Toy.siger 1 0 Toy.icp.raw]⟩]⟩ toyAttempts).log
      (run Toy.lib ⟨k, [⟨Toy.icp, [Toy.siger 1 0 Toy.icp.raw]⟩]⟩ toyAttempts).kever.state := by
  obtain ⟨k, hk, hlen⟩ := exists_ok_of_any
    (x := Kever.new Toy.lib Toy.icp [Toy.siger 1 0 Toy.icp.raw] [Toy.verfer 1])
    (p := fun k => decide ((run Toy.lib ⟨k, [⟨Toy.icp, [Toy.siger 1 0 Toy.icp.raw]⟩]⟩
      toyAttempts).log.length = 3)) (by decide +kernel)
  have hlen := of_decide_eq_true hlen
  exact ⟨k, hk, hlen, kelOf_run hk toyAttempts (by rw [hlen]; decide)⟩

end Tracked

end Keri
