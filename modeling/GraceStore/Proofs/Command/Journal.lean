import GraceStore.Proofs.Command.Requests
import GraceStore.Proofs.Ledger.Replica

/-!
# The journal of a request

What is journaled of a request, carried out in turn on a replica of the ledger as it was, leaves a replica
of the ledger as it is: first the keys that expired are deleted, then the request, or what it is rewritten
to, comes if it has changed anything.
-/

namespace GraceStore.Request

variable [Decimals]

def apply (now : UInt64) (l : Ledger) (argv : List Bytes) : Ledger :=
  ((script (l.live now) now argv).run now l).2

/-- The request that an expired key is journaled as. -/
def deletion (key : Bytes) : List Bytes := [Bytes.ofString "DEL", key]

/-- What is journaled of a request that has led from one ledger to another. -/
def journal (l l' : Ledger) (argv : List Bytes) (e : Executed) : List (List Bytes) :=
  l'.expiredKeys.map deletion ++ if l'.dirty = l.dirty then [] else [e.rewrite.getD argv]

variable {t now : UInt64} {l l' r : Ledger} {key text : Bytes} {due keys : List Bytes} {argv : List Bytes}
  {c : Command} {e : Executed}

open Ledger (Follows)

theorem script_of_write (hc : command? argv = .ok c) (hw : c.isWrite = true) (live : Contents) (now : UInt64) :
    script live now argv = (Script.ofCommand c argv.tail).reported fun e => { reply := .ofError e } := by
  unfold script
  rw [hc]
  simp only [hw, if_true]

theorem items_apply_set :
    (apply t r [Bytes.ofString "SET", key, text]).items = (r.setItem key (some ⟨.string text, none⟩)).items := by
  have hc : command? [Bytes.ofString "SET", key, text] = .ok .set := rfl
  unfold apply
  rw [script_of_write hc rfl]
  rfl

theorem items_apply_deletion (h : r.isDue t key = false) :
    (apply t r (deletion key)).items = (r.setItem key none).items := by
  have hc : command? (deletion key) = .ok .del := rfl
  unfold apply
  rw [script_of_write hc rfl]
  show (Script.run t (.reported _ (.look key fun v => _)) r).2.items = _
  simp only [Script.reported, Script.run, Ledger.check_of_not_due h, Ledger.live_of_not_due h]
  cases hk : r.items key with
  | none => exact (Contents.set_eq_self hk).symm
  | some i => rfl

theorem follows_deletion (h : Follows t due l r) : Follows t (due ++ [key]) l (apply t r (deletion key)) :=
  h.erase.of_items rfl (items_apply_deletion (h.timeless key))

theorem follows_deletions (h : Follows t due l r) :
    Follows t (due ++ keys) l ((keys.map deletion).foldl (apply t) r) := by
  induction keys generalizing due r with
  | nil => rwa [List.append_nil]
  | cons key keys ih =>
      rw [List.append_cons]
      exact ih (follows_deletion h)

/-- Where only expiry was at work, it is enough to delete what it removed. -/
theorem follows_drops (h : Follows t [] l r) (hempty : l.expiredKeys = []) (hx : Ledger.Drops l l' due) :
    Follows t [] l' ((l'.expiredKeys.map deletion).foldl (apply t) r) := by
  have hdue : l'.expiredKeys = due := by rw [hx.expiredKeys, hempty, List.nil_append]
  have hdeleted : Follows t ([] ++ due) l ((due.map deletion).foldl (apply t) r) := follows_deletions h
  rw [hdue]
  exact hdeleted.of_drops hx

/-- A request that sets a key leaves what the request does that it was journaled for. -/
theorem follows_set {life : Lifetime} (h : Follows t (l.dueAt now key) l r) :
    Follows t [] ((l.check now key).perform now (.put key (.string text) life))
      (apply t r [Bytes.ofString "SET", key, text]) := by
  have hlook : Follows t [] (l.check now key) r := by
    rw [← List.append_nil (l.dueAt now key)] at h
    exact (Follows.look h fun _ => List.not_mem_nil).2
  have hput : Follows t [] ((l.check now key).perform now (.put key (.string text) life))
      (r.perform t (.put key (.string text) .forever)) := hlook.put List.not_mem_nil
  exact hput.of_items rfl items_apply_set

theorem follows_rewritten {kind : EventClass} {name : String} (hempty : l.expiredKeys = [])
    (hl : l' = l.steps now [.look key, .deed (.put key (.string text) .kept), .deed (.count 1),
      .deed (.report kind name key)])
    (h : Follows t l'.expiredKeys l r) : Follows t [] l' (apply t r [Bytes.ofString "SET", key, text]) := by
  have hkeys : l'.expiredKeys = l.dueAt now key := by
    have hcheck := (Ledger.purged_check l now key).expiredKeys
    rw [hempty, List.nil_append] at hcheck
    rw [hl]
    exact hcheck
  rw [hkeys] at h
  exact (follows_set h).of_items (by rw [hl]; rfl) rfl

theorem follows_journal (h : Follows t [] l r) (hempty : l.expiredKeys = []) (hargv : argv.length < 2 ^ 64)
    (hc : command? argv = .ok c) (hw : c.isWrite = true)
    (hrun : (script (l.live now) now argv).run now l = (.ok e, l')) :
    Follows t [] l' ((journal l l' argv e).foldl (apply t) r) := by
  obtain ⟨ms, hfoot, hms⟩ := footprint_of_run hrun
  have hdeleted : Follows t l'.expiredKeys l ((l'.expiredKeys.map deletion).foldl (apply t) r) :=
    follows_deletions h
  rw [journal, List.foldl_append]
  split
  · -- nothing was counted, so nothing was edited: only keys that were due have gone
    rename_i hdirty
    rw [hms] at hdirty
    obtain ⟨due, hexpires, _⟩ := Ledger.expires_steps l now (hfoot.not_isEdit hargv hdirty)
    rw [← hms] at hexpires
    exact follows_drops h hempty hexpires.toDrops
  · cases hrewrite : e.rewrite with
    | none =>
        -- on the replica every key that was found due is missing already, so the request does the same
        have hkeys := Script.expiredKeys_run (script (l.live now) now argv) now l
        rw [hrun, hempty, List.nil_append] at hkeys
        rw [hkeys] at hdeleted
        obtain ⟨_, hfollows⟩ := Script.run_follows _ hdeleted
        rw [hrun, ← hkeys] at hfollows
        show Follows t [] l' (apply t _ argv)
        rw [apply, script_of_write hc hw, ← script_of_write hc hw (l.live now) now]
        exact hfollows
    | some words =>
        obtain ⟨key, text, kind, name, rfl, rfl⟩ := hfoot.rewritten words hrewrite
        exact follows_rewritten hempty hms hdeleted

end GraceStore.Request
