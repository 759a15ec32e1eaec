import GraceStore.Proofs.Command.Bookkeeping
import GraceStore.Proofs.Command.Within
import GraceStore.Proofs.Number.Decimal96
import GraceStore.Proofs.Store.Alone

/-!
# The books of a keyspace agree

The owner of a keyspace carries out requests, runs active expiry and takes the keys that expiry removed. The
count of changes, the statistic of expired keys, the keys that are handed out and the events are each kept by
other code; they agree after every run, whatever the clock shows at each look.
-/

namespace GraceStore

/-! ## The statistic of expired keys -/

namespace Keyspace

/-- Every key that expiry has removed on the way was noted as one that waits to be handed out. -/
def Notes (k k' : Keyspace) : Prop := k'.expired + k.expiredKeys.size = k.expired + k'.expiredKeys.size

variable {k k' k'' : Keyspace}

theorem Notes.of_eq (hexpired : k'.expired = k.expired) (hkeys : k'.expiredKeys = k.expiredKeys) : k.Notes k' := by
  rw [Notes, hexpired, hkeys]

theorem Notes.refl (k : Keyspace) : k.Notes k := .of_eq rfl rfl

theorem Notes.trans (h : k.Notes k') (h' : k'.Notes k'') : k.Notes k'' := by
  unfold Notes at *
  omega

theorem Edit.notes (h : k.Edit k') : k.Notes k' := by
  cases h with
  | bucket | counted | synchronized => exact .of_eq rfl rfl
  | added key edit =>
      refine .of_eq ?_ (same_countAdded _).expiredKeys
      simp only [countAdded]
      split <;> rfl
  | noted key records =>
      simp only [Notes, Log.size, Log.add, List.length_cons]
      omega

theorem Edits.notes (h : k.Edits k') : k.Notes k' := by
  induction h with
  | refl => exact .refl k
  | tail _ he ih => exact ih.trans he.notes

end Keyspace

/-! ## Calls -/

/-- What the owner of a store asks of it. -/
inductive StoreCall where
  | write (argv : List Bytes)
  | activeExpire (start samples : Nat)
  | takeExpired
  deriving Repr

namespace Store

/-- Carries out a call: the expired keys that it hands out, and the store afterwards. -/
def call [Decimals] (s : Store) (clock : Clock) : StoreCall → List Bytes × Store
  | .write argv => ([], ((Request.processWrite argv).run { clock } s).2)
  | .activeExpire start samples => ([], { s with keyspace := (s.keyspace.activeExpireCycle clock start samples).2 })
  | .takeExpired => (s.keyspace.takeExpired.1, { s with keyspace := s.keyspace.takeExpired.2 })

/-- Carries out calls in turn: all the expired keys that they hand out, and the store afterwards. -/
def callAll [Decimals] (s : Store) : List (Clock × StoreCall) → List Bytes × Store
  | [] => ([], s)
  | (clock, c) :: cs => ((s.call clock c).1 ++ ((s.call clock c).2.callAll cs).1, ((s.call clock c).2.callAll cs).2)

variable {s s' : Store} {handed keys : List Bytes} {clock : Clock} {c : StoreCall} {cs cs' : List (Clock × StoreCall)}

theorem callAll_append [Decimals] : s.callAll (cs ++ cs') =
    ((s.callAll cs).1 ++ ((s.callAll cs).2.callAll cs').1, ((s.callAll cs).2.callAll cs').2) := by
  induction cs generalizing s with
  | nil => rfl
  | cons c cs ih => simp only [List.cons_append, callAll, ih, List.append_assoc]

/-- The books agree with the events; `handed` are the expired keys that were handed out so far. -/
structure Agrees (s : Store) (handed : List Bytes) : Prop where
  alone : s.Alone
  wellFormed : s.keyspace.WellFormed
  dirty : s.keyspace.dirty = UInt64.ofNat (s.keyspace.events.countP Event.isChange)
  handedOut : (s.keyspace.events.filter Event.isExpiry).map (·.key) = handed ++ s.keyspace.expiredKeys.toList
  expired : s.keyspace.expired = handed.length + s.keyspace.expiredKeys.size

/-- What a call does that hands out nothing. -/
structure Enters (s s' : Store) : Prop where
  alone : s'.Alone
  wellFormed : s'.keyspace.WellFormed
  booked : ∃ batch, s.keyspace.Booked s'.keyspace batch
  notes : s.keyspace.Notes s'.keyspace

theorem agrees_empty (db : UInt32) (hash : Bytes → Nat) : (empty db hash).Agrees [] where
  alone := alone_empty db hash
  wellFormed := Keyspace.wellFormed_empty 0 db hash 0
  dirty := rfl
  handedOut := rfl
  expired := rfl

/-! ## A request -/

/-- The scope of a request on a store of its own. -/
def solitary (clock : Clock) : Scope where
  env := { clock }
  named _ := True
  held _ := False
  offered _ := True
  hands := False
  counted _ := False.elim

theorem Alone.fits (h : s.Alone) : (solitary clock).Fits s where
  sound := h.sound
  fresh _ _ := trivial
  pooled _ _ := trivial

theorem Path.notes (h : Path (solitary clock) s s') : s.keyspace.Notes s'.keyspace := by
  induction h with
  | refl => exact .refl _
  | tail _ hm ih =>
      refine ih.trans ?_
      cases hm with
      | operate op hplain => exact Keyspace.Edits.notes (Keyspace.edits_apply _ op hplain)
      | upkeep hk =>
          cases hk with
          | handOver h => exact h.elim
          | synchronize | renew => exact .of_eq rfl rfl
      | push | bind | edit => exact .refl _

theorem Agrees.enters_write [Decimals] (h : s.Agrees handed) (clock : Clock) (argv : List Bytes) :
    s.Enters (s.call clock (.write argv)).2 := by
  have hwithin : (Request.processWrite argv).Within (solitary clock) := Request.within_processWrite fun _ _ => trivial
  have hpath : Path (solitary clock) s (s.call clock (.write argv)).2 := (hwithin s h.alone.fits).1
  exact ⟨h.alone.run_processWrite clock argv, hpath.wellFormed h.wellFormed, Request.books_processWrite argv _ s,
    hpath.notes⟩

theorem Agrees.enters_activeExpire [Decimals] (h : s.Agrees handed) (clock : Clock) (start samples : Nat) :
    s.Enters (s.call clock (.activeExpire start samples)).2 :=
  ⟨(h.alone.expireAll _).1, h.wellFormed.expireAll _, Keyspace.booked_expireAll _ _,
    Keyspace.Edits.notes (Keyspace.edits_expireAll _ _)⟩

/-! ## Runs -/

theorem Agrees.of_enters (h : s.Agrees handed) (he : s.Enters s') : s'.Agrees handed := by
  obtain ⟨batch, hbooked⟩ := he.booked
  have hevents : s'.keyspace.events = s.keyspace.events ++ batch := hbooked.events
  have hwaiting : s'.keyspace.expiredKeys.toList =
      s.keyspace.expiredKeys.toList ++ (batch.filter Event.isExpiry).map (·.key) := hbooked.expiredKeys
  exact {
    alone := he.alone
    wellFormed := he.wellFormed
    dirty := by
      have hdirty : s'.keyspace.dirty = s.keyspace.dirty + UInt64.ofNat (batch.countP Event.isChange) := hbooked.dirty
      rw [hdirty, h.dirty, hevents, List.countP_append, UInt64.ofNat_add]
    handedOut := by
      rw [hevents, hwaiting, List.filter_append, List.map_append, h.handedOut, List.append_assoc]
    expired := by
      have hnotes := he.notes
      have hexpired := h.expired
      unfold Keyspace.Notes at hnotes
      omega }

theorem Agrees.takeExpired [Decimals] (h : s.Agrees handed) :
    (s.call clock .takeExpired).2.Agrees (handed ++ (s.call clock .takeExpired).1) where
  alone := h.alone.takeExpired.1
  wellFormed := h.wellFormed.congr rfl rfl rfl rfl rfl
  dirty := h.dirty
  handedOut := h.handedOut.trans (List.append_nil _).symm
  expired := by
    rw [List.length_append]
    exact h.expired.trans (congrArg (handed.length + ·) (Log.length_toList _).symm)

theorem Agrees.call [Decimals] (h : s.Agrees handed) (clock : Clock) (c : StoreCall) :
    (s.call clock c).2.Agrees (handed ++ (s.call clock c).1) ∧ ∃ batch,
      (s.call clock c).2.keyspace.events = s.keyspace.events ++ batch ∧ Event.Orderly batch := by
  have hquiet (he : s.Enters (s.call clock c).2) (hnone : (s.call clock c).1 = []) :
      (s.call clock c).2.Agrees (handed ++ (s.call clock c).1) ∧ ∃ batch,
        (s.call clock c).2.keyspace.events = s.keyspace.events ++ batch ∧ Event.Orderly batch := by
    rw [hnone, List.append_nil]
    obtain ⟨batch, hbooked⟩ := he.booked
    exact ⟨h.of_enters he, batch, hbooked.events, hbooked.orderly⟩
  cases c with
  | write argv => exact hquiet (h.enters_write clock argv) rfl
  | activeExpire start samples => exact hquiet (h.enters_activeExpire clock start samples) rfl
  | takeExpired => exact ⟨h.takeExpired, [], (List.append_nil _).symm, Event.orderly_of_ne nofun⟩

theorem Agrees.callAll [Decimals] (h : s.Agrees handed) (cs : List (Clock × StoreCall)) :
    (s.callAll cs).2.Agrees (handed ++ (s.callAll cs).1) := by
  induction cs generalizing s handed with
  | nil => exact (List.append_nil handed).symm ▸ h
  | cons c cs ih =>
      have hrest := ih (h.call c.1 c.2).1
      rw [List.append_assoc] at hrest
      exact hrest

/-- After every run from an empty keyspace the count of changes is the number of events of edits, in 64 bits;
the expired keys that were handed out and those that wait are the keys of the events of expiry, in order; the
statistic counts these; and the size is the number of entries. In every call a key is given an expiry only
where it was set just before. -/
theorem callAll_empty [Decimals] (db : UInt32) (hash : Bytes → Nat) (cs : List (Clock × StoreCall)) :
    let s := empty db hash
    let handed := (s.callAll cs).1
    let k := (s.callAll cs).2.keyspace
    k.stats.dirty = UInt64.ofNat (k.events.countP Event.isChange) ∧
      (k.events.filter Event.isExpiry).map (·.key) = handed ++ k.expiredKeys.toList ∧
      k.stats.expired = k.events.countP Event.isExpiry ∧
      k.stats.expired = handed.length + k.expiredKeys.size ∧
      k.size = k.table.entries.length ∧ k.stats.keys = k.table.entries.length ∧
      ∀ before clock c after, cs = before ++ (clock, c) :: after → ∃ batch,
        (s.callAll (before ++ [(clock, c)])).2.keyspace.events = (s.callAll before).2.keyspace.events ++ batch ∧
          Event.Orderly batch := by
  intro s handed k
  have h : (s.callAll cs).2.Agrees handed := (agrees_empty db hash).callAll cs
  have hcount : k.events.countP Event.isExpiry = handed.length + k.expiredKeys.size := by
    have hlength := congrArg List.length h.handedOut
    rwa [List.length_map, ← List.countP_eq_length_filter, List.length_append, Log.length_toList] at hlength
  have hsize : k.table.entries.length = k.size := h.wellFormed.length
  refine ⟨h.dirty, h.handedOut, h.expired.trans hcount.symm, h.expired, hsize.symm,
    h.wellFormed.keys.trans hsize.symm, ?_⟩
  intro before clock c after _
  obtain ⟨_, hbatch⟩ := ((agrees_empty db hash).callAll before).call clock c
  rw [callAll_append]
  exact hbatch

open scoped Decimal96

/-- A key falls due while APPEND looks at it, at 10 and then at 11, and is found to be due by DEL. -/
theorem callAll_empty_due :
    let calls : List (Clock × StoreCall) := [
      (0, .write [Bytes.ofString "PSETEX", [0x61], [0x31, 0x30], [0x78]]),
      (⟨10, fun i => 10 + .ofNat i⟩, .write [Bytes.ofString "APPEND", [0x61], [0x79]]),
      (12, .write [Bytes.ofString "DEL", [0x61]])]
    let handed := ((empty 0 List.length).callAll calls).1
    let k := ((empty 0 List.length).callAll calls).2.keyspace
    k.events.map (·.name) = ["set", "expire", "append", "expired"] ∧ k.dirty = 2 ∧ k.expired = 1 ∧
      k.dirty = UInt64.ofNat (k.events.countP Event.isChange) ∧
      (k.events.filter Event.isExpiry).map (·.key) = handed ++ k.expiredKeys.toList ∧
      k.expired = handed.length + k.expiredKeys.size := by
  intro calls handed k
  obtain ⟨hdirty, hhanded, -, hexpired, -, -, -⟩ := callAll_empty 0 List.length calls
  exact ⟨by decide +kernel, by decide +kernel, by decide +kernel, hdirty, hhanded, hexpired⟩

end Store

end GraceStore
