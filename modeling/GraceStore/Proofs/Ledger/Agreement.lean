import GraceStore.Proofs.Ledger.Script

/-!
# Ledgers that agree

Two ledgers whose live contents agree cannot be told apart by a script: it ends in the same way on both,
does the same deeds, and leaves live contents that agree again. What differs is only which keys were due
and had not been removed yet.
-/

namespace GraceStore

namespace Ledger

/-- The events that tell more than that a key expired. -/
def notices (events : List Event) : List Event := events.filter (·.name != "expired")

/-- Two ledgers move on in step: each from what it was to what it is now. -/
structure Tandem (now : UInt64) (l₁ l₂ l₁' l₂' : Ledger) : Prop where
  live : l₁'.live now = l₂'.live now
  dirty : ∃ n, l₁'.dirty = l₁.dirty + n ∧ l₂'.dirty = l₂.dirty + n
  events : ∃ new₁ new₂, l₁'.events = l₁.events ++ new₁ ∧ l₂'.events = l₂.events ++ new₂ ∧
    notices new₁ = notices new₂

variable {now : UInt64} {l l₁ l₂ l₁' l₂' l₁'' l₂'' : Ledger} {key : Bytes} {d : Deed}

theorem Tandem.refl (h : l₁.live now = l₂.live now) : Tandem now l₁ l₂ l₁ l₂ where
  live := h
  dirty := ⟨0, (UInt64.add_zero _).symm, (UInt64.add_zero _).symm⟩
  events := ⟨[], [], (List.append_nil _).symm, (List.append_nil _).symm, rfl⟩

theorem Tandem.trans (h : Tandem now l₁ l₂ l₁' l₂') (h' : Tandem now l₁' l₂' l₁'' l₂'') :
    Tandem now l₁ l₂ l₁'' l₂'' where
  live := h'.live
  dirty := by
    obtain ⟨n, hn₁, hn₂⟩ := h.dirty
    obtain ⟨m, hm₁, hm₂⟩ := h'.dirty
    exact ⟨n + m, by rw [hm₁, hn₁, UInt64.add_assoc], by rw [hm₂, hn₂, UInt64.add_assoc]⟩
  events := by
    obtain ⟨a₁, a₂, ha₁, ha₂, ha⟩ := h.events
    obtain ⟨b₁, b₂, hb₁, hb₂, hb⟩ := h'.events
    refine ⟨a₁ ++ b₁, a₂ ++ b₂, by rw [hb₁, ha₁, List.append_assoc], by rw [hb₂, ha₂, List.append_assoc], ?_⟩
    simp only [notices, List.filter_append] at *
    rw [ha, hb]

theorem events_check (l : Ledger) (now : UInt64) (key : Bytes) :
    ∃ new, (l.check now key).events = l.events ++ new ∧ notices new = [] := by
  unfold check
  split
  · exact ⟨[l.expiredEvent key], rfl, rfl⟩
  · exact ⟨[], (List.append_nil _).symm, rfl⟩

theorem Tandem.check (h : l₁.live now = l₂.live now) (key : Bytes) :
    Tandem now l₁ l₂ (l₁.check now key) (l₂.check now key) where
  live := by rw [live_check, live_check, h]
  dirty := ⟨0, by simp, by simp⟩
  events := by
    obtain ⟨new₁, h₁, hn₁⟩ := events_check l₁ now key
    obtain ⟨new₂, h₂, hn₂⟩ := events_check l₂ now key
    exact ⟨new₁, new₂, h₁, h₂, hn₁.trans hn₂.symm⟩

theorem Tandem.perform (hdb : l₁.db = l₂.db) (h : l₁.live now = l₂.live now) :
    Tandem now l₁ l₂ (l₁.perform now d) (l₂.perform now d) := by
  cases d with
  | put key v life => exact { Tandem.refl h with live := by rw [live_put, live_put, h] }
  | erase key => exact { Tandem.refl h with live := by rw [live_erase, live_erase, h] }
  | count n => exact { Tandem.refl h with dirty := ⟨n, rfl, rfl⟩ }
  | report kind name key =>
      exact { Tandem.refl h with
        events := ⟨[⟨kind, name, key, l₁.db⟩], [⟨kind, name, key, l₁.db⟩], rfl, by rw [hdb]; rfl, rfl⟩ }

end Ledger

namespace Script

variable {α : Type} {now : UInt64} {l₁ l₂ : Ledger}

theorem run_tandem (p : Script α) (hdb : l₁.db = l₂.db) (hlive : l₁.live now = l₂.live now) :
    (p.run now l₁).1 = (p.run now l₂).1 ∧ Ledger.Tandem now l₁ l₂ (p.run now l₁).2 (p.run now l₂).2 := by
  induction p generalizing l₁ l₂ with
  | done a => exact ⟨rfl, .refl hlive⟩
  | failed e => exact ⟨rfl, .refl hlive⟩
  | look key next ih =>
      have hcheck := Ledger.Tandem.check hlive key
      obtain ⟨hr, ht⟩ := ih ((l₁.live now key).map (·.value)) (by simpa using hdb) hcheck.live
      simp only [run, ← hlive]
      exact ⟨hr, hcheck.trans ht⟩
  | deed d next ih =>
      have hdeed := Ledger.Tandem.perform (d := d) hdb hlive
      obtain ⟨hr, ht⟩ := ih (by simpa using hdb) hdeed.live
      exact ⟨hr, hdeed.trans ht⟩

end Script

end GraceStore
