import GraceStore.Proofs.Command.Journal
import GraceStore.Proofs.Command.Refusals
import GraceStore.Proofs.Command.Replies
import GraceStore.Proofs.Command.Steady
import GraceStore.Proofs.Command.Within
import GraceStore.Proofs.Store.Owners

/-!
# A store of its own

A store whose objects nobody else refers to, such as that of an engine or a replica. Every request is
answered on it, and active expiry is nothing but looks.
-/

namespace GraceStore.Store

open GraceStore.Action

/-- A sound store that shares its objects with nobody. -/
structure Alone (s : Store) : Prop where
  sound : s.Sound fun _ => False
  native : s.Native

variable {s : Store} {α : Type} {a : Action α} {p : Script α}

theorem alone_empty (db : UInt32) (hash : Bytes → Nat) : (empty db hash).Alone where
  sound := by
    refine ⟨Table.valid_empty (by decide), fun e he => absurd he Table.not_mem_entries_empty,
      fun n hn => ?_, nofun⟩
    simp only [empty, Keyspace.empty, Heap.get?, Keyspace.poolObjects, Nat.zero_add]
    rw [List.getElem?_toArray, List.getElem?_map, List.getElem?_range hn, Option.map_some]
  native := native_empty _ 0 db hash 0 (Keyspace.empty 0 db hash 0).domain

theorem ledger_empty_eq (db : UInt32) (hash : Bytes → Nat) : (empty db hash).ledger = .empty db :=
  ledger_empty _ 0 db hash 0 (Keyspace.empty 0 db hash 0).domain

theorem Advance.alone {s' : Store} (h : s.Advance (fun _ => False) s') (hn : s.Native) : s'.Alone :=
  ⟨h.sound, h.native hn⟩

theorem Alone.run_ok (h : s.Alone) {clock : Clock} (ha : a.Carries (fun _ => False) { clock } s p)
    (hp : p.Every (fun _ r => ∃ x, r = .ok x) []) : ∃ x s', a.run { clock } s = (.ok x, s') ∧
      p.run clock.time s.ledger = (.ok x, s'.ledger) ∧ s'.Alone := by
  obtain ⟨x, s', hrun, hscript, hadv⟩ := ha.run_ok h.sound nofun h.native hp
  exact ⟨x, s', hrun, hscript, hadv.alone h.native⟩

theorem Alone.processWrite_ok [Decimals] [Decimals.Lawful] (h : s.Alone) (now : UInt64) (argv : List Bytes) : ∃ e s',
    (Request.processWrite argv).run { clock := now } s = (.ok e, s') ∧
    (Request.script (s.ledger.live now) now argv).run now s.ledger = (.ok e, s'.ledger) ∧ s'.Alone :=
  h.run_ok (Request.carries_processWrite argv) (Request.every_script_ok _ now argv)

/-- A request whose keys are steady is carried out as at one time. -/
theorem Alone.processWrite_steady [Decimals] [Decimals.Lawful] (h : s.Alone) {clock : Clock} {argv : List Bytes}
    (hsteady : s.Steady clock (· ∈ Request.keys argv)) : ∃ e s',
    (Request.processWrite argv).run { clock } s = (.ok e, s') ∧
    (Request.script (s.ledger.live clock.time) clock.time argv).run clock.time s.ledger = (.ok e, s'.ledger) ∧
    s'.Alone := by
  obtain ⟨e, s', hstill, hscript, hs'⟩ := h.processWrite_ok clock.time argv
  have hrests : (Request.processWrite argv).Rests { clock } s := Request.rests_processWrite hsteady
  exact ⟨e, s', hrests.trans hstill, hscript, hs'⟩

/-- Whether keys are steady can be seen from outside. -/
theorem Steady.of_ledger {t : Store} {clock : Clock} {named : Bytes → Prop} (h : s.Steady clock named) (hs : s.Alone)
    (ht : t.Alone) (hl : t.ledger = s.ledger) : t.Steady clock named := by
  have hlingers (now : UInt64) (key : Bytes) : t.keyspace.Lingers now key ↔ s.keyspace.Lingers now key := by
    rw [Keyspace.Lingers, ← isDue_ledger ht.sound, hl, isDue_ledger hs.sound, Keyspace.Lingers]
  refine ⟨ht.sound.valid, fun key hkey i => ?_⟩
  rw [hlingers, hlingers]
  exact h.lingers key hkey i

theorem Alone.run_processWrite [Decimals] (h : s.Alone) (clock : Clock) (argv : List Bytes) :
    ((Request.processWrite argv).run { clock } s).2.Alone := by
  have hmade : (Request.processWrite argv).MadeOf fun _ => True := Request.madeOf_processWrite (fun _ => trivial) argv
  have hwithin : (Request.processWrite argv).Within (ownScope { clock } (fun _ => False) nofun s) :=
    Request.within_processWrite fun _ _ => trivial
  have hfits : (ownScope { clock } (fun _ => False) nofun s).Fits s := ⟨h.sound, fun _ => .inl, fun _ => .inr⟩
  exact ⟨((hwithin s hfits).1.onward h.sound).sound, hmade.native hwithin h.sound h.native⟩

/-- A request is carried out whatever the clock shows on the way: there is no string that it might not read. -/
theorem Alone.exists_processWrite [Decimals] (h : s.Alone) (clock : Clock) (argv : List Bytes) : ∃ e s',
    (Request.processWrite argv).run { clock } s = (.ok e, s') ∧ s'.Alone := by
  have hs' := h.run_processWrite clock argv
  have hfares : (Request.processWrite argv).Fares { clock } s (fun _ _ => True) fun _ => False := by
    unfold Request.processWrite
    split
    · exact .pure trivial
    · split
      · refine ((Request.fares_execute h.sound.valid _ _).mono (fun _ _ h => h) ?_).reporting _
        exact fun _ ⟨key, _, hbars⟩ => hbars.shut (h.native.reads key)
      · refine ((Command.fares_answer fun key _ => ?_).reporting _).bind fun _ _ _ => .pure trivial
        exact (h.native.reads key).opensAt _
  unfold Fares at hfares
  generalize hrun : (Request.processWrite argv).run { clock } s = r at hfares hs'
  obtain ⟨(e | why) | x, s'⟩ := r
  · exact absurd hrun Request.run_processWrite_ne
  · exact hfares.elim
  · exact ⟨x, s', rfl, hs'⟩

theorem Alone.processRead_ok (h : s.Alone) (clock : Clock) (argv : List Bytes) : ∃ r s',
    (Request.processRead argv).run { clock } s = (.ok r, s') ∧ s'.ledger = s.ledger ∧ s'.Alone := by
  obtain ⟨r, s', hrun, hscript, hs'⟩ := h.run_ok (Request.carries_processRead argv) ⟨_, rfl⟩
  exact ⟨r, s', hrun, (congrArg Prod.snd hscript).symm, hs'⟩

/-! ## Expiry -/

theorem Alone.expireAll (h : s.Alone) (looks : List (UInt64 × Bytes)) :
    let s' : Store := { s with keyspace := (s.keyspace.expireAll looks).2 }
    s'.Alone ∧ s'.ledger = s.ledger.checkAll looks := by
  induction looks generalizing s with
  | nil => exact ⟨h, rfl⟩
  | cons p looks ih =>
      have hs := (advance_expireIfNeeded h.sound p.1 p.2).alone h.native
      obtain ⟨hs', hledger⟩ := ih hs
      rw [(ledger_expireIfNeeded h.sound p.1 p.2).2] at hledger
      exact ⟨hs', hledger⟩

theorem Alone.takeExpired (h : s.Alone) :
    let s' : Store := { s with keyspace := s.keyspace.takeExpired.2 }
    s'.Alone ∧ s'.ledger = { s.ledger with expiredKeys := [] } := by
  have hturns : s.keyspace.Turns (fun _ => False) s.keyspace.takeExpired.2 := .of_table rfl rfl rfl rfl rfl
  exact ⟨(advance_of_turns h.sound hturns).alone h.native, rfl⟩

/-! ## Replaying requests -/

/-- What requests leave that are carried out one after another at one time. -/
def replay [Decimals] (t : UInt64) (s : Store) (requests : List (List Bytes)) : Store :=
  requests.foldl (fun s argv => ((Request.processWrite argv).run { clock := t } s).2) s

theorem Alone.replay [Decimals] [Decimals.Lawful] (h : s.Alone) (t : UInt64) (requests : List (List Bytes)) :
    (s.replay t requests).Alone ∧ (s.replay t requests).ledger = requests.foldl (Request.apply t) s.ledger := by
  induction requests generalizing s with
  | nil => exact ⟨h, rfl⟩
  | cons argv requests ih =>
      obtain ⟨e, s', hrun, hscript, hs'⟩ := h.processWrite_ok t argv
      have happly : s'.ledger = Request.apply t s.ledger argv := (congrArg Prod.snd hscript).symm
      rw [Store.replay, List.foldl_cons, List.foldl_cons, hrun, ← happly]
      exact ih hs'

end GraceStore.Store
