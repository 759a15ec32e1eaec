import GraceStore.Proofs.Command.Lengths
import GraceStore.Proofs.Store.Alone

/-!
# Requests that would leave too long a string

Where no string is too long and nothing that is stored unmeasured is, only an edit can come to a longer string. It
looks twice at its key, measures what it would leave, and fails before it has done anything but expire the key.
-/

namespace GraceStore

open GraceStore.Action

/-- What an edit sees of the keys: those that are due at neither of its first two looks. -/
def Ledger.seen (l : Ledger) (clock : Clock) : Contents := (l.live (clock.look 0)).live (clock.look 1)

theorem Contents.live_live (c : Contents) (now : UInt64) : (c.live now).live now = c.live now := by
  funext key
  simp [Contents.live, Option.filter_filter]

@[simp] theorem Ledger.seen_still (l : Ledger) (t : UInt64) : l.seen t = l.live t := Contents.live_live l.items t

namespace Store

variable {s : Store} {key data : Bytes} {expiry : Option UInt64}

theorem length_item?_le (hshort : s.heap.Short) (hi : s.item? key = some ⟨.string data, expiry⟩) :
    data.length ≤ maxString := by
  unfold item? at hi
  obtain ⟨e, -, hi⟩ := Option.bind_eq_some_iff.mp hi
  obtain ⟨v, hv, hi⟩ := Option.map_eq_some_iff.mp hi
  cases hi
  exact length_le_of_short hshort hv

theorem length_seen_le (hshort : s.heap.Short) (clock : Clock) (key : Bytes) :
    ((s.ledger.seen clock).data key).length ≤ maxString := by
  unfold Contents.data
  split
  · rename_i hseen
    exact length_item?_le hshort (Contents.live_eq_some.mp (Contents.live_eq_some.mp hseen).1).1
  · exact Nat.zero_le _

end Store

variable {env : Env} {s : Store} {held : ObjectId → Prop} {key value : Bytes}

namespace Action

theorem meets_lookupString (key : Bytes) : (lookupString key).Meets held env s fun r s' =>
    s'.ledger = s.ledger.check (env.clock.look 0) key ∧
    r.map (Option.map StringValue.toBytes) = (s.ledger.seen env.clock).string? key := by
  refine .of_sound fun hs => ?_
  have hadv := advance_expireIfNeeded hs (env.clock.look 0) key
  have hl := (Store.ledger_expireIfNeeded hs (env.clock.look 0) key).2
  refine .bind_run (run_expireIfNeeded 0 key) (fun _ => hadv) fun _ => ?_
  generalize ({ s with keyspace := (s.keyspace.expireIfNeeded (env.clock.look 0) key).2 } : Store) = s' at hl ⊢
  have hseen : s.ledger.seen env.clock key = s'.ledger.live (env.clock.look 1) key := by
    rw [hl]
    exact congrArg (Option.filter fun i => !i.isDue (env.clock.look 1)) Ledger.items_check_self.symm
  refine .bind_run (run_getKey 1 key) .refl fun hs' => ?_
  rw [← hl]
  unfold Contents.string?
  rw [hseen]
  rcases Store.get?_cases hs' (env.clock.look 1) key with ⟨hn, hg⟩ | ⟨e, a, he, ha, hi, hg⟩
  · rw [hg, hn]
    exact .pure ⟨rfl, rfl⟩
  · rw [hg, hi]
    have hadmits (hn : s'.Native) : a.Admits s'.keyspace.id := hn e (Table.mem_entries_of_find? he) a ha
    refine Meets.bind (yields_loadString ha hadmits) (fun x s'' _ ⟨hl', _, hx, _, _, hvalue⟩ => ?_) nofun
    cases hx
    cases hv : a.value with
    | string data =>
        rw [hv] at hvalue
        obtain ⟨value, rfl, rfl⟩ := hvalue
        exact .pure ⟨hl', rfl⟩
    | list items =>
        rw [hv] at hvalue
        cases hvalue
        exact .fail ⟨hl', rfl⟩

/-- An action fails at a key, which it may have expired before, and has done nothing else. -/
def Balks {α : Type} (a : Action α) (held : ObjectId → Prop) (env : Env) (s : Store) (key : Bytes) : Prop :=
  a.Meets held env s fun r s' => (∃ e, r = .error e) ∧ s'.ledger = s.ledger.check (env.clock.look 0) key

end Action

namespace Command

variable {c : Command} {args : List Bytes} {data : Bytes}

theorem balks_appendTo (hvalue : value.length ≤ maxString)
    (h : maxString < ((s.ledger.seen env.clock).data key ++ value).length) :
    (appendTo key value).Balks held env s key := by
  refine (meets_lookupString key).bind (fun old s' _ ⟨hl, hold⟩ => ?_) fun e s' ⟨hl, _⟩ => ⟨⟨e, rfl⟩, hl⟩
  rw [Script.data_of_string? hold.symm, List.length_append] at h
  cases old with
  | none => exact absurd hvalue (Nat.not_le.mpr (by simpa using h))
  | some old =>
      simp only [Option.map_some, Option.getD_some, StringValue.length_toBytes] at h ⊢
      rw [checkLength, if_neg (Nat.not_le.mpr h)]
      exact .fail ⟨⟨_, rfl⟩, hl⟩

theorem balks_setRangeOf {offset : Bytes} {n : Int64} (hn : Integer.parse? offset = some n)
    (hpos : ¬ n < 0) (hv : value.isEmpty = false) (h : maxString < n.toInt.toNat + value.length) :
    (setRangeOf key offset value).Balks held env s key := by
  unfold setRangeOf integerArgument
  rw [hn]
  refine .bind_run (run_pure n) .refl fun _ => ?_
  rw [if_neg hpos]
  refine (meets_lookupString key).bind (fun old s' _ ⟨hl, _⟩ => ?_) fun e s' ⟨hl, _⟩ => ⟨⟨e, rfl⟩, hl⟩
  have hcheck : checkLength (n.toInt.toNat + value.length) = Action.fail (.refused .stringTooLong) :=
    if_neg (Nat.not_le.mpr h)
  cases old with
  | none | some =>
      simp only [Option.map_none, Option.map_some, hv, hcheck, Bool.false_eq_true, if_false]
      exact .fail ⟨⟨_, rfl⟩, hl⟩

/-- Where nothing unmeasured is too long, a command that would leave a string that is balks at its key. -/
theorem Leaves.balks [Decimals] [Decimals.Lawful] (h : c.Leaves (s.ledger.seen env.clock) args key data)
    (hs : s.heap.Short) (hshort : ∀ v ∈ c.unmeasured args, v.length ≤ maxString) (hlong : maxString < data.length) :
    (Request.execute c args).Balks held env s key := by
  have himpossible (hdata : data.length ≤ maxString) : (Request.execute c args).Balks held env s key :=
    absurd hdata (Nat.not_le.mpr hlong)
  cases h with
  | set | setNx | setEx | pSetEx | getSet => exact himpossible (hshort _ List.mem_cons_self)
  | append => exact balks_appendTo (hshort _ List.mem_cons_self) hlong
  | setRange hn hpos hv =>
      have hold := Store.length_seen_le hs env.clock key
      rw [Bytes.length_patchAt] at hlong
      exact balks_setRangeOf hn hpos hv (by omega)
  | mSet hp hkv | mSetNx hp hkv => exact himpossible (hshort _ (mem_unmeasured_of_pairs? hp hkv))
  | count _ sum => exact himpossible (Nat.le_trans (Integer.length_render_le sum) (by decide))
  | countFloat hsum => exact himpossible (Nat.le_trans (LongFloat.length_render_add hsum) (by decide))

end Command

/-- A request that would leave too long a string is answered with an error, and leaves everything as it is but for a
key that is due. -/
theorem Store.Alone.processWrite_of_outgrows [Decimals] [Decimals.Lawful] (hs : s.Alone) (hshort : s.heap.Short)
    {clock : Clock} {argv : List Bytes} (hargv : ∀ v ∈ Request.unmeasured argv, v.length ≤ maxString)
    (h : Request.Outgrows (s.ledger.seen clock) argv) : ∃ why due s',
      (Request.processWrite argv).run { clock } s = (.ok { reply := .ofError why }, s') ∧
      Ledger.Purged (clock.look 0) s.ledger s'.ledger due ∧ s'.Alone := by
  obtain ⟨c, key, data, hc, hleaves, hlong⟩ := h
  rw [Request.unmeasured_of_command hc] at hargv
  have hbalks : (Request.execute c argv.tail).Balks (fun _ => False) { clock } s key :=
    hleaves.balks hshort hargv hlong
  obtain ⟨hadv, hr⟩ := hbalks hs.sound nofun
  have hprocess : Request.processWrite argv = Request.reporting (Request.execute c argv.tail) fun e =>
      { reply := .ofError e } := by
    rw [Request.processWrite, hc]
    exact if_pos (Request.isWrite_of_leaves hleaves)
  rw [hprocess, Request.run_reporting]
  generalize (Request.execute c argv.tail).run { clock } s = r at hadv hr
  obtain ⟨(why | _) | x, s'⟩ := r
  · exact ⟨why, _, s', rfl, hr.2 ▸ Ledger.purged_check _ _ _, hadv.alone hs.native⟩
  · exact absurd hs.native hr
  · obtain ⟨⟨_, he⟩, -⟩ := hr
    cases he

end GraceStore
