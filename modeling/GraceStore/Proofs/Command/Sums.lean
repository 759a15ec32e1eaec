import GraceStore.Proofs.Command.Outcomes
import GraceStore.Proofs.Number.Decimal96
import GraceStore.Proofs.Number.Plain

/-!
# Adding decimals

INCRBYFLOAT adds plain numbers exactly, as long as they fit, and keeps the canonical text of the sum. So the text
that increments leave does not depend on their order.
-/

namespace GraceStore

/-- A key that holds a plain text holds its number, and a missing key counts as zero. -/
def Plain.Held (p : Plain) (item : Option Item) : Prop :=
  (item = none ∧ p = .zero) ∨ ∃ expiry, item = some ⟨.string p.text, expiry⟩

theorem Plain.Held.unique {p p' : Plain} {item : Option Item} (h : p.Held item) (h' : p'.Held item) : p = p' := by
  rcases h with ⟨rfl, rfl⟩ | ⟨_, rfl⟩ <;> rcases h' with ⟨hnone, rfl⟩ | ⟨_, hsome⟩
  · rfl
  · cases hsome
  · cases hnone
  · simp only [Option.some.injEq, Item.mk.injEq, Value.string.injEq] at hsome
    exact Plain.text_inj hsome.1

/-! ## What the command does to a ledger -/

theorem Ledger.items_revision {l : Ledger} {now : UInt64} {name : String} {key text : Bytes} :
    (l.steps now (Script.revision name key text)).items key =
      some ⟨.string text, (l.live now key).bind (·.expiresAt)⟩ := by
  show ((l.check now key).perform now (.put key (.string text) .kept)).items key = _
  simp only [perform, setItem, Contents.set_self, live_check, Lifetime.expiry]

/-- What a key is given for as long as before counts whenever the old item would have. -/
theorem Ledger.live_revision_of_eq {l : Ledger} {now t : UInt64} {name : String} {key text : Bytes}
    (h : l.live t key = l.live now key) : (l.steps now (Script.revision name key text)).live t key =
      some ⟨.string text, (l.live now key).bind (·.expiresAt)⟩ := by
  refine Contents.live_eq_some.mpr ⟨items_revision, ?_⟩
  rw [← h]
  exact Lifetime.isDue_expiry .kept _ fun i => not_due_of_live

namespace Script

variable [Decimals] {now : UInt64} {l l' : Ledger} {key increment : Bytes} {e : Executed} {x y sum : LongFloat}

/-- What INCRBYFLOAT does with the number of a key and its increment, where they have a sum. -/
theorem run_addFloat_of_add?
    (hx : ((l.live now).operand key .zero fun data => (StringValue.raw data).toLongFloat) = .ok x)
    (hy : LongFloat.parse? increment = some y) (hsum : x.add? y = some sum) :
    (addFloat key increment).run now l =
      (.ok { reply := .bulk sum.render, rewrite := some [Bytes.ofString "SET", key, sum.render] },
        l.steps now (revision "incrbyfloat" key sum.render)) := by
  rw [addFloat, run_operand, hx]
  simp only [hy, hsum]
  rfl

/-- INCRBYFLOAT succeeds only if the number of the key and its increment have a sum. -/
theorem add?_of_run_addFloat (h : (addFloat key increment).run now l = (.ok e, l')) : ∃ x y sum,
    ((l.live now).operand key .zero fun data => (StringValue.raw data).toLongFloat) = .ok x ∧
      LongFloat.parse? increment = some y ∧ x.add? y = some sum := by
  rw [addFloat, run_operand] at h
  split at h
  · cases h
  · rename_i x hx
    cases hy : LongFloat.parse? increment with
    | none =>
        rw [hy] at h
        cases h
    | some y =>
        rw [hy] at h
        cases hsum : x.add? y with
        | none =>
            simp only [hsum] at h
            cases h
        | some sum => exact ⟨x, y, sum, hx, rfl, hsum⟩

theorem run_addFloat [Decimals.Lawful] {p q : Plain} (hp : p.Held (l.live now key)) (hfits : p.Fits q) :
    ∃ sum : Plain, sum.Canonical ∧ sum.value = p.value + q.value ∧
      (addFloat key q.text).run now l =
        (.ok { reply := .bulk sum.text, rewrite := some [Bytes.ofString "SET", key, sum.text] },
          l.steps now (revision "incrbyfloat" key sum.text)) := by
  have hstart : ∃ d, Decimals.parts d = p.parts ∧
      ((l.live now).operand key .zero fun data => (StringValue.raw data).toLongFloat) = .ok (.decimal d) := by
    rcases hp with ⟨hnone, rfl⟩ | ⟨expiry, hsome⟩
    · refine ⟨Decimals.zero, Decimals.Lawful.parts_zero, ?_⟩
      simp only [Contents.operand, Contents.string?, hnone]
      rfl
    · obtain ⟨d, hd, hparts⟩ := LongFloat.parse?_plain hfits.left_lt
      refine ⟨d, hparts, ?_⟩
      simp only [Contents.operand, Contents.string?, hsome]
      show (StringValue.raw p.text).toLongFloat = _
      rw [StringValue.toLongFloat, hd]
  obtain ⟨a, ha, hx⟩ := hstart
  obtain ⟨b, hy, hb⟩ := LongFloat.parse?_plain hfits.right_lt
  obtain ⟨x, sum, hadd, hrender, hcanonical, hvalue⟩ := LongFloat.add?_plain hfits ha hb
  refine ⟨sum, hcanonical, hvalue, ?_⟩
  rw [run_addFloat_of_add? hx hy hadd, hrender]

end Script

/-! ## In reachable states -/

namespace Multistore

variable {m : Multistore} {i : DomainId} {now : UInt64} {s : Store} {name key : Bytes} {p q : Plain}

/-- The state after INCRBYFLOAT with one increment after another, each at its time. -/
def afterSums [Decimals] (m : Multistore) (i : DomainId) (name key : Bytes) : List (UInt64 × Plain) → Multistore
  | [] => m
  | (now, q) :: rest => (m.after i now [name, key, q.text]).afterSums i name key rest

/-- At every step the key holds a plain number that fits with the next increment. -/
def FitsAlong [Decimals] (m : Multistore) (i : DomainId) (name key : Bytes) : List (UInt64 × Plain) → Prop
  | [] => True
  | (now, q) :: rest => (∃ (s : Store) (p : Plain), m.store? i = some s ∧ p.Held (s.ledger.live now key) ∧ p.Fits q) ∧
      (m.after i now [name, key, q.text]).FitsAlong i name key rest

theorem command?_incrByFloat (hname : Command.lookup? name = some .incrByFloat) (key increment : Bytes) :
    Request.command? [name, key, increment] = .ok .incrByFloat := by
  rw [Request.command?, List.headD_cons, hname]
  rfl

theorem Reachable.sum [Decimals] [Decimals.Lawful] (h : m.Reachable) (hs : m.store? i = some s) (hr : s.Reads key)
    (hname : Command.lookup? name = some .incrByFloat) (hp : p.Held (s.ledger.live now key)) (hfits : p.Fits q) :
    ∃ sum : Plain, sum.Canonical ∧ sum.value = p.value + q.value ∧
      m.Leaves i now [name, key, q.text] (.bulk sum.text) ((s.ledger.live now).revise key sum.text) ∧
      (m.after i now [name, key, q.text]).get i now key = some (.ok (.bulk sum.text)) := by
  obtain ⟨sum, hcanonical, hvalue, hrun⟩ := Script.run_addFloat hp hfits
  have hleaves := h.leaves hs (command?_incrByFloat hname key q.text) rfl (hr.of_keys rfl) hrun
  rw [Ledger.live_revision] at hleaves
  exact ⟨sum, hcanonical, hvalue, hleaves, h.get_after hs hr hleaves Contents.string?_revise⟩

/-- What one increment leaves, at all times at which the key has one and the same item. -/
theorem Reachable.sum_at [Decimals] [Decimals.Lawful] {T : UInt64 → Prop} {item : Option Item} (h : m.Reachable)
    (hs : m.store? i = some s)
    (hr : s.Reads key) (hname : Command.lookup? name = some .incrByFloat)
    (hitem : ∀ t, T t → s.ledger.live t key = item) (hnow : T now) (hp : p.Held item) (hfits : p.Fits q) :
    ∃ (sum : Plain) (s' : Store), sum.Canonical ∧ sum.value = p.value + q.value ∧
      (m.after i now [name, key, q.text]).store? i = some s' ∧ s'.Reads key ∧
      ∀ t, T t → s'.ledger.live t key = some ⟨.string sum.text, item.bind (·.expiresAt)⟩ := by
  obtain ⟨sum, hcanonical, hvalue, hrun⟩ := Script.run_addFloat ((hitem now hnow).symm ▸ hp) hfits
  obtain ⟨_, s', _, _, hs', hledger⟩ :=
    h.answered hs (command?_incrByFloat hname key q.text) rfl (hr.of_keys rfl) hrun
  refine ⟨sum, s', hcanonical, hvalue, hs', h.reads_after hs hs' hr, fun t ht => ?_⟩
  rw [hledger, Ledger.live_revision_of_eq ((hitem t ht).trans (hitem now hnow).symm), hitem now hnow]

/-- What increments leave is the canonical text of their total. -/
theorem Reachable.total [Decimals] [Decimals.Lawful] {T : UInt64 → Prop} {item : Option Item}
    {xs : List (UInt64 × Plain)}
    (h : m.Reachable) (hs : m.store? i = some s) (hr : s.Reads key) (hname : Command.lookup? name = some .incrByFloat)
    (hitem : ∀ t, T t → s.ledger.live t key = item) (hxs : ∀ x ∈ xs, T x.1)
    (hp : p.Held item) (hne : xs ≠ []) (hfits : m.FitsAlong i name key xs) :
    ∃ sum : Plain, sum.Canonical ∧ sum.value = p.value + (xs.map (·.2.value)).sum ∧
      ∀ t, T t → (m.afterSums i name key xs).get i t key = some (.ok (.bulk sum.text)) := by
  -- the first increment leaves one item at all of the times, and the other increments start from that
  induction xs generalizing m s p item with
  | nil => exact absurd rfl hne
  | cons x rest ih =>
      obtain ⟨now, q⟩ := x
      obtain ⟨⟨s₀, p₀, hs₀, hp₀, hfit⟩, hrest⟩ := hfits
      have hnow : T now := hxs (now, q) List.mem_cons_self
      cases hs.symm.trans hs₀
      rw [hitem now hnow] at hp₀
      cases hp.unique hp₀
      obtain ⟨sum, s', hcanonical, hvalue, hs', hr', hlive⟩ := h.sum_at hs hr hname hitem hnow hp₀ hfit
      have h' : (m.after i now [name, key, q.text]).Reachable := h.after i now _
      by_cases hnil : rest = []
      · subst hnil
        refine ⟨sum, hcanonical, by simpa using hvalue, fun t ht => ?_⟩
        have hold : (s'.ledger.live t).string? key = .ok (some sum.text) := by
          simp only [Contents.string?, hlive t ht]
        exact h'.get_eq hs' hr' hold
      · obtain ⟨total, hcanonical', hvalue', hget⟩ := ih h' hs' hr' hlive
          (fun x hx => hxs x (List.mem_cons_of_mem _ hx)) (.inr ⟨_, rfl⟩) hnil hrest
        refine ⟨total, hcanonical', ?_, hget⟩
        rw [hvalue', hvalue, List.map_cons, List.sum_cons, add_assoc]

/-- INCRBYFLOAT is exact on plain numbers that fit, in every reachable state where no other domain owns the string
of the key, and increments leave one text in every order in which they fit, at times at which the key is as it was. -/
theorem Reachable.sums_exact [Decimals] [Decimals.Lawful] (h : m.Reachable) (hs : m.store? i = some s)
    (hr : s.Reads key) (hname : Command.lookup? name = some .incrByFloat) :
    (∀ now (p q : Plain), p.Held (s.ledger.live now key) → p.Fits q → ∃ sum : Plain, sum.Canonical ∧
      sum.value = p.value + q.value ∧
      m.Leaves i now [name, key, q.text] (.bulk sum.text) ((s.ledger.live now).revise key sum.text) ∧
      (m.after i now [name, key, q.text]).get i now key = some (.ok (.bulk sum.text))) ∧
    ∀ item (xs ys : List (UInt64 × Plain)), (∀ x ∈ xs ++ ys, s.ledger.live x.1 key = item) →
      (xs.map (·.2)).Perm (ys.map (·.2)) → m.FitsAlong i name key xs → m.FitsAlong i name key ys →
      ∀ t, s.ledger.live t key = item →
        (m.afterSums i name key xs).get i t key = (m.afterSums i name key ys).get i t key := by
  refine ⟨fun now p q hp hfits => h.sum hs hr hname hp hfits, fun item xs ys htimes hperm hxs hys t ht => ?_⟩
  rcases xs with _ | ⟨x, rest⟩
  · obtain rfl : ys = [] := List.map_eq_nil_iff.mp hperm.nil_eq.symm
    rfl
  · have hne : ys ≠ [] := by
      rintro rfl
      exact absurd hperm.symm.nil_eq (by simp)
    obtain ⟨⟨s₀, p, hs₀, hp, _⟩, _⟩ := id hxs
    cases hs.symm.trans hs₀
    rw [htimes x (by simp)] at hp
    obtain ⟨sum, hcanonical, hvalue, hget⟩ := h.total hs hr hname (fun _ ht => ht)
      (fun y hy => htimes y (List.mem_append_left _ hy)) hp (List.cons_ne_nil x rest) hxs
    obtain ⟨sum', hcanonical', hvalue', hget'⟩ := h.total hs hr hname (fun _ ht => ht)
      (fun y hy => htimes y (List.mem_append_right _ hy)) hp hne hys
    have htotal : ((x :: rest).map (·.2.value)).sum = (ys.map (·.2.value)).sum := by
      have := (hperm.map Plain.value).sum_eq
      simpa only [List.map_map, Function.comp_def] using this
    have hsum : sum = sum' := hcanonical.eq hcanonical' (by rw [hvalue, hvalue', htotal])
    rw [hget t ht, hget' t ht, hsum]

open scoped Decimal96

/-- To `0.1`, which expires at 10, come `0.2` and `-0.3` at 5. -/
theorem sums_exact_tenths :
    let name := Bytes.ofString "INCRBYFLOAT"
    let tenths (negative : Bool) (n : Nat) : Plain := .ofParts negative n 1 (by decide)
    let start := tenths false 1
    let a := tenths false 2
    let b := tenths true 3
    let m := (create List.length [0]).after 0 0 [Bytes.ofString "PSETEX", [0x6b], [0x31, 0x30], start.text]
    (m.after 0 5 [name, [0x6b], a.text]).get 0 5 [0x6b] = some (.ok (.bulk [0x30, 0x2e, 0x33])) ∧
    (m.afterSums 0 name [0x6b] [(5, a), (5, b)]).get 0 5 [0x6b] =
      (m.afterSums 0 name [0x6b] [(5, b), (5, a)]).get 0 5 [0x6b] := by
  intro name tenths start a b m
  obtain ⟨h, s, hs, hr, hl⟩ :=
    exists_store?_first List.length 0 0 [Bytes.ofString "PSETEX", [0x6b], [0x31, 0x30], start.text]
  have hlive : s.ledger.live 5 [0x6b] = some ⟨.string start.text, some 10⟩ := by
    rw [hl]
    decide +kernel
  have hname : Command.lookup? name = some .incrByFloat := rfl
  have hheld : start.Held (some ⟨.string start.text, some 10⟩) := .inr ⟨_, rfl⟩
  have hat (t : UInt64) (ht : t = 5) : s.ledger.live t [0x6b] = some ⟨.string start.text, some 10⟩ := ht ▸ hlive
  have hfita : start.Fits a := by decide +kernel
  have hfitb : start.Fits b := by decide +kernel
  obtain ⟨sum, s', hcanonical, hvalue, hs', -, hlive'⟩ := h.sum_at hs (hr [0x6b]) hname hat rfl hheld hfita
  obtain ⟨sum', s'', hcanonical', hvalue', hs'', -, hlive''⟩ := h.sum_at hs (hr [0x6b]) hname hat rfl hheld hfitb
  have hsum : sum = tenths false 3 := hcanonical.eq Plain.canonical_ofParts (by
    rw [hvalue, Plain.value_ofParts]
    decide +kernel)
  have hsum' : sum' = tenths true 2 := hcanonical'.eq Plain.canonical_ofParts (by
    rw [hvalue', Plain.value_ofParts]
    decide +kernel)
  subst hsum hsum'
  have htext : (tenths false 3).text = [0x30, 0x2e, 0x33] := by decide +kernel
  obtain ⟨hexact, horder⟩ := h.sums_exact hs (hr [0x6b]) hname
  refine ⟨?_, horder _ [(5, a), (5, b)] [(5, b), (5, a)] ?_ ?_ ?_ ?_ 5 hlive⟩
  · obtain ⟨_, hc, hv, -, hget⟩ := hexact 5 start a (hlive ▸ hheld) hfita
    rw [hget, hc.eq Plain.canonical_ofParts (hv.trans hvalue.symm), htext]
  · have hfive : ∀ x ∈ [((5 : UInt64), a), (5, b)] ++ [(5, b), (5, a)], x.1 = 5 := by simp
    exact fun x hx => hat x.1 (hfive x hx)
  · exact .swap _ _ _
  · exact ⟨⟨s, start, hs, hlive ▸ hheld, hfita⟩,
      ⟨s', _, hs', .inr ⟨_, hlive' 5 rfl⟩, by decide +kernel⟩, trivial⟩
  · exact ⟨⟨s, start, hs, hlive ▸ hheld, hfitb⟩,
      ⟨s'', _, hs'', .inr ⟨_, hlive'' 5 rfl⟩, by decide +kernel⟩, trivial⟩

end Multistore

end GraceStore
