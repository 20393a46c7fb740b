/-
**Logs whose entries are judged by what stands before them.**

An append-only log is well formed when every entry meets a condition on itself and on the part of
the log before it.  Appending one entry only adds one instance of the condition, which is what
makes such a log easy to maintain; what is read off it later is read through an index.

* `Log.Each` — every entry meets a condition given the entries before it;
* `Log.each_concat` — **appending an entry adds one obligation**;
* `Log.latest` — the newest value that some entry of the log yields;
* `Log.Derives` — a log, and a state that its entries lead to;
* `Log.Derives.eq_of_tip` — **a chained log is determined by its tip**.
-/

import Keri.Lib.Machine

set_option relaxedAutoImplicit false
set_option autoImplicit false

namespace Log

universe u v w

variable {α : Type u} {β : Type v} {P : List α → α → Prop}

/-! ### A condition on every entry -/

/-- Every entry meets the condition `P`, given the entries before it. -/
def Each (P : List α → α → Prop) (log : List α) : Prop :=
  ∀ k e, log[k]? = some e → P (log.take k) e

@[simp] theorem each_nil : Each P [] := by
  intro k e h
  simp at h

/-- **Appending an entry adds one obligation and changes none.** -/
theorem each_concat {log : List α} {e : α} : Each P (log ++ [e]) ↔ Each P log ∧ P log e := by
  constructor
  · intro h
    refine ⟨?_, ?_⟩
    · intro k e' hk
      have hlt : k < log.length := (List.getElem?_eq_some_iff.1 hk).1
      have hk' : (log ++ [e])[k]? = some e' := by
        rw [List.getElem?_append_left hlt, hk]
      have := h k e' hk'
      rwa [List.take_append_of_le_length (by omega)] at this
    · have := h log.length e (by simp)
      rwa [List.take_left] at this
  · rintro ⟨hlog, he⟩ k e' hk
    rcases Nat.lt_or_ge k log.length with hlt | hge
    · rw [List.getElem?_append_left hlt] at hk
      rw [List.take_append_of_le_length (by omega)]
      exact hlog k e' hk
    · have hlen : k < (log ++ [e]).length := (List.getElem?_eq_some_iff.1 hk).1
      have hkeq : k = log.length := by
        rw [List.length_append, List.length_singleton] at hlen
        omega
      subst hkeq
      rw [List.getElem?_concat_length, Option.some_inj] at hk
      rwa [List.take_left, ← hk]

theorem each_singleton {e : α} : Each P [e] ↔ P [] e := by
  have h : Each P ([] ++ [e]) ↔ Each P [] ∧ P [] e := each_concat
  rw [List.nil_append] at h
  rw [h]
  exact and_iff_right each_nil

/-! ### The newest value of a kind -/

/-- The newest value that `f` yields on the log. -/
def latest (f : α → Option β) (log : List α) : Option β := (log.filterMap f).getLast?

@[simp] theorem latest_nil (f : α → Option β) : latest f [] = none := rfl

theorem latest_concat_some {f : α → Option β} {e : α} {b : β} (h : f e = some b)
    (log : List α) : latest f (log ++ [e]) = some b := by
  simp [latest, h]

theorem latest_concat_none {f : α → Option β} {e : α} (h : f e = none) (log : List α) :
    latest f (log ++ [e]) = latest f log := by
  simp [latest, h]

/-! ### Chained logs -/

variable {σ : Type v} {τ : Type w}

/-- The first entry gives a state, and every later one moves it. -/
inductive Derives (first : α → σ → Prop) (next : σ → α → σ → Prop) : List α → σ → Prop where
  | first {a : α} {s : σ} : first a s → Derives first next [a] s
  | next {log : List α} {a : α} {s t : σ} : Derives first next log s → next s a t →
      Derives first next (log ++ [a]) t

variable {first : α → σ → Prop} {next : σ → α → σ → Prop}

/-- **A chained log is determined by its tip.**  When states with one tip come from one entry, a
first entry is never a later one, and a later entry names the tip before it, then logs with one tip
are equal, and so are the states they lead to. -/
theorem Derives.eq_of_tip (tip : σ → τ)
    (hentry : ∀ {a b s t}, (first a s ∨ ∃ r, next r a s) → (first b t ∨ ∃ r, next r b t) →
      tip s = tip t → a = b)
    (hfirst : ∀ {a s t}, first a s → first a t → s = t)
    (hnext : ∀ {a r s t}, next r a s → next r a t → s = t)
    (hkind : ∀ {a r s t}, first a s → ¬ next r a t)
    (hprior : ∀ {a r r' s t}, next r a s → next r' a t → tip r = tip r')
    {log log' : List α} {s s' : σ} (h : Derives first next log s)
    (h' : Derives first next log' s') (htip : tip s = tip s') : log = log' ∧ s = s' := by
  induction h generalizing log' s' with
  | first ha =>
      cases h' with
      | first hb =>
          obtain rfl := hentry (Or.inl ha) (Or.inl hb) htip
          exact ⟨rfl, hfirst ha hb⟩
      | next _ hb =>
          obtain rfl := hentry (Or.inl ha) (Or.inr ⟨_, hb⟩) htip
          exact absurd hb (hkind ha)
  | next _ ha ih =>
      cases h' with
      | first hb =>
          obtain rfl := hentry (Or.inr ⟨_, ha⟩) (Or.inl hb) htip
          exact absurd ha (hkind hb)
      | next hlog hb =>
          -- the last entries are one, so the tips before them are equal
          obtain rfl := hentry (Or.inr ⟨_, ha⟩) (Or.inr ⟨_, hb⟩) htip
          obtain ⟨rfl, rfl⟩ := ih hlog (hprior ha hb)
          exact ⟨rfl, hnext ha hb⟩

end Log
