import GraceStore.Proofs.Command.Composition
import GraceStore.Proofs.Store.Changes

/-!
# Routes and the two ways of carrying out a request

The route of a request, the writer and a reader each look at its command and at the number of its words for
themselves. They agree: what the route rejects the writer answers in the same words, what it sends to a reader
the writer does as a reader does, and a reader refuses what it sends to the writer.
-/

namespace GraceStore

namespace Request

open GraceStore.Action Command

variable {argv : List Bytes} {c : Command} {e : Error}

theorem route_of_error (hc : command? argv = .error e) : route argv = .reject (.ofError e) := by
  unfold route
  rw [hc]

theorem route_of_ok (hc : command? argv = .ok c) :
    route argv = if c.isWrite then .write else .read (shardKey (argv.tail.headD [])) := by
  unfold route
  rw [hc]

/-- What has a command has enough words for it, and not too many. -/
theorem lookup?_of_command? (hc : command? argv = .ok c) :
    Command.lookup? (argv.headD []) = some c ∧ c.accepts argv.length = true := by
  unfold command? at hc
  split at hc
  · cases hc
  · rename_i c' hl
    split at hc
    · cases hc
      exact ⟨hl, ‹_›⟩
    · cases hc

theorem processWrite_of_error [Decimals] (hc : command? argv = .error e) :
    processWrite argv = pure { reply := .ofError e } := by
  unfold processWrite
  rw [hc]

theorem processRead_of_read (hc : command? argv = .ok c) (hw : c.isWrite = false) :
    processRead argv = reporting (answer c argv.tail) .ofError := by
  obtain ⟨hl, ha⟩ := lookup?_of_command? hc
  unfold processRead
  simp only [hl, hw, ha, Bool.false_eq_true, if_false, if_true]

/-- The writer does what a reader does. -/
theorem processWrite_of_read [Decimals] (hc : command? argv = .ok c) (hw : c.isWrite = false) :
    processWrite argv = do
      let reply ← processRead argv
      return { reply } := by
  rw [processRead_of_read hc hw]
  unfold processWrite
  simp only [hc, hw, Bool.false_eq_true, if_false]

theorem processRead_of_write (hc : command? argv = .ok c) (hw : c.isWrite = true) :
    processRead argv = pure (.ofError (.refused (.writeOnReader c.name))) := by
  unfold processRead
  simp only [(lookup?_of_command? hc).1, hw, if_true]

/-- A request that reads leaves everything but counters and the domains of cells alone. -/
theorem browses_processRead (env : Env) (s : Store) (argv : List Bytes) :
    s.Browses ((processRead argv).run env s).2 := by
  have hmade : (processRead argv).MadeOf fun kind => kind = .count ∨ kind = .load :=
    madeOf_processRead (.inl rfl) (.inr rfl) argv
  exact hmade.browses (by simp) (by simp) env s

end Request

namespace Multistore

open GraceStore.Action

variable {m : Multistore} {i : DomainId} {s : Store} {now : UInt64} {argv : List Bytes} {α β : Type}

theorem run_map (a : Action α) (f : α → β) (env : Env) (s : Store) :
    (f <$> a).run env s = match a.run env s with
      | (.ok x, s') => (.ok (f x), s')
      | (.error why, s') => (.error why, s') := by
  rw [map_eq_pure_bind, run_bind]
  rfl

theorem perform_map (hs : m.store? i = some s) (a : Action α) (f : α → StoreAnswer) :
    m.perform i clock (f <$> a) = match a.run (m.env i clock) s with
      | (.ok x, s') => (f x, m.putStore i s')
      | (.error why, s') => (.failed why, m.putStore i s') := by
  unfold perform
  rw [run_of_store hs, run_map]
  generalize a.run (m.env i clock) s = r
  obtain ⟨why | x, s'⟩ := r <;> rfl

theorem snd_step_write [Decimals] (m : Multistore) (i : DomainId) (clock : Clock) (argv : List Bytes) :
    (m.step i clock (.write argv)).2 = (m.run i clock (Request.processWrite argv)).2 := by
  show (m.perform i clock (.executed <$> Request.processWrite argv)).2 = _
  rw [snd_perform]
  cases hs : m.store? i with
  | none => rw [run_of_none hs, run_of_none hs]
  | some s =>
      rw [run_of_store hs, run_of_store hs, run_map]
      generalize (Request.processWrite argv).run (m.env i clock) s = r
      obtain ⟨why | e, s'⟩ := r <;> rfl

/-- A reader ends with a reply, unless a stored object belongs to another domain. -/
theorem Sound.processRead_cases (h : m.Sound) (hs : m.store? i = some s) (clock : Clock) (argv : List Bytes) :
    ∃ s', s.Browses s' ∧
      ((∃ r, (Request.processRead argv).run (m.env i clock) s = (.ok r, s')) ∨
        ¬ s.Native ∧ ∃ why, (Request.processRead argv).run (m.env i clock) s = (.error (.foreignDomain why), s')) := by
  have hbrowses := Request.browses_processRead (m.env i clock) s argv
  have hout (o : ObjectId) (ho : m.held i o) : (m.env i clock).outside o ≠ 0 := ho.1
  obtain ⟨_, hq⟩ := Request.carries_processRead argv (h.toStore hs) hout
  generalize (Request.processRead argv).run (m.env i clock) s = r at hbrowses hq ⊢
  obtain ⟨(e | why) | r, s'⟩ := r
  · cases congrArg Prod.fst hq
  · exact ⟨s', hbrowses, .inr ⟨hq, why, rfl⟩⟩
  · exact ⟨s', hbrowses, .inl ⟨r, rfl⟩⟩

/-- What the writer of a keyspace and its readers do with a request, by its route. -/
structure ServesAlike [Decimals] (m : Multistore) (i : DomainId) (s : Store) (clock : Clock) (argv : List Bytes) :
    Prop where
  /-- What is rejected is answered by the writer with the same reply, and changes nothing. -/
  reject : ∀ r, Request.route argv = .reject r → m.step i clock (.write argv) = (.executed { reply := r }, m)
  /-- What goes to a reader is answered by both with the same reply, or stops both at an object of another
  domain; both leave the same, in which no entry has changed, and nothing that is counted, noted or reported. -/
  read : ∀ shard, Request.route argv = .read shard → ∃ s', s.Browses s' ∧
    ((∃ r, m.step i clock (.write argv) = (.executed { reply := r }, m.putStore i s') ∧
        m.step i clock (.read argv) = (.reply r, m.putStore i s')) ∨
      ¬ s.Native ∧ ∃ why, m.step i clock (.write argv) = (.failed (.foreignDomain why), m.putStore i s') ∧
        m.step i clock (.read argv) = (.failed (.foreignDomain why), m.putStore i s'))
  /-- What goes to the writer is an error to a reader, who changes nothing. -/
  write : Request.route argv = .write → ∃ r, r.isError = true ∧ m.step i clock (.read argv) = (.reply r, m)

theorem Sound.serves_alike [Decimals] (h : m.Sound) (hs : m.store? i = some s) (clock : Clock) (argv : List Bytes) :
    m.ServesAlike i s clock argv := by
  have hwrite : m.step i clock (.write argv) = m.perform i clock (.executed <$> Request.processWrite argv) := rfl
  have hread : m.step i clock (.read argv) = m.perform i clock (.reply <$> Request.processRead argv) := rfl
  have hself : m.putStore i s = m := Multistore.putStore_self hs
  cases hc : Request.command? argv with
  | error e =>
      have hroute := Request.route_of_error hc
      refine ⟨fun r hr => ?_, fun shard hr => ?_, fun hr => ?_⟩
      · cases hroute.symm.trans hr
        rw [hwrite, perform_map hs, Request.processWrite_of_error hc, run_pure]
        simp only [hself]
      · cases hroute.symm.trans hr
      · cases hroute.symm.trans hr
  | ok c =>
      have hroute := Request.route_of_ok hc
      cases hw : c.isWrite with
      | true =>
          rw [hw, if_pos rfl] at hroute
          refine ⟨fun r hr => ?_, fun shard hr => ?_, fun _ => ?_⟩
          · cases hroute.symm.trans hr
          · cases hroute.symm.trans hr
          · refine ⟨.ofError (.refused (.writeOnReader c.name)), rfl, ?_⟩
            rw [hread, perform_map hs, Request.processRead_of_write hc hw, run_pure]
            simp only [hself]
      | false =>
          rw [hw, if_neg Bool.false_ne_true] at hroute
          refine ⟨fun r hr => ?_, fun shard _ => ?_, fun hr => ?_⟩
          · cases hroute.symm.trans hr
          · obtain ⟨s', hbrowses, hcases⟩ := h.processRead_cases hs clock argv
            refine ⟨s', hbrowses, ?_⟩
            rw [hwrite, hread, perform_map hs, perform_map hs, Request.processWrite_of_read hc hw, run_bind]
            rcases hcases with ⟨r, hrun⟩ | ⟨hforeign, why, hrun⟩
            · rw [hrun]
              exact .inl ⟨r, rfl, rfl⟩
            · rw [hrun]
              exact .inr ⟨hforeign, why, rfl, rfl⟩
          · cases hroute.symm.trans hr

end Multistore

end GraceStore
